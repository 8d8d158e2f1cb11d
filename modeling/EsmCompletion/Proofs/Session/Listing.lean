import EsmCompletion.Proofs.Exports.Listable
import EsmCompletion.Proofs.Imports.ModulePath
import EsmCompletion.Proofs.Session.Run

/-! # What a session answers can be read back from a list

A line feed can be in the name of a directory, but what is shown for a module is the last segment of
a path that was captured in one line. So all that a session records, and all that it answers with,
can be listed, as long as the files write no names with tabs or line feeds in them; and then a list
is told by its lines. -/

namespace EsmCompletion

/-- Whether no module of a tree is parsed to a name that breaks a list. -/
def FileTree.NamesUnbroken (tree : FileTree) : Prop :=
  ∀ path modified text, tree.HasText path modified text →
    ∀ program, Script.Program.parse? text = some program →
      ∀ name ∈ Exports.names program, IsUnbroken name

/-! ## Aliases -/

namespace Imports

/-- Whether aliases, and what is shown for the modules they stand for, can be listed. -/
structure Listable (aliases : Aliases) : Prop where
  keys : ∀ word ∈ aliases.keys, IsUnbroken word
  modules : ∀ word path, aliases.get? word = some path → '\n' ∉ path.shownName.toList

/-- The scan reads aliases that can be listed, whatever directory the file of the buffer is in. -/
theorem listable_ofBuffer (lookahead : Nat) (buffer : Buffer) :
    Listable (ofBuffer lookahead buffer) where
  keys word hw c hc hm := by
    have hword := isWord_of_mem_keys hw c hm
    rcases eq_of_mem_breaks hc with rfl | rfl <;> cases hword
  modules word path hg hm := by
    obtain ⟨file, relative, -, hcaptured, rfl⟩ := exists_captured_of_get? hg
    have hrelative := isRelative_of_captured? hcaptured
    have hlast := Path.getLast?_segments_of_isRelative hrelative (directoryOf file)
    have hmem := (Path.mem_text_iff (by decide)).2 ⟨_, List.mem_of_getLast? hlast, hm⟩
    exact hrelative.lineFeed_not_mem hmem

end Imports

theorem listable_aliasSuggestions {aliases : Aliases} (h : Imports.Listable aliases)
    (word : String) : ∀ suggestion ∈ aliasSuggestions aliases word, suggestion.IsListable := by
  intro suggestion hm
  obtain ⟨name, hname, rfl⟩ := List.mem_map.1 hm
  exact Suggestion.isListable_ofAlias (h.keys name (List.mem_filter.1 hname).1)

theorem listable_exportSuggestions {exports : ExportMap} (h : Exports.Listable exports)
    (typed : String) : ∀ suggestion ∈ exportSuggestions exports typed, suggestion.IsListable := by
  intro suggestion hm
  obtain ⟨entry, hentry, rfl⟩ := List.mem_map.1 hm
  exact h entry (List.mem_filter.1 hentry).1

/-! ## Requests -/

/-- The records that an operation leaves can be listed, and so can what it suggests. -/
structure Outcome.Listed (outcome : Outcome (Except ModuleFault (List Suggestion))) : Prop where
  records : outcome.cache.AllExports Exports.Listable
  suggestions : ∀ suggestions, outcome.answer = .ok suggestions →
    ∀ suggestion ∈ suggestions, suggestion.IsListable

namespace ModuleCache

variable {cache : ModuleCache} {tree : FileTree} {aliases : Aliases}

theorem listed_suggestFor (hc : cache.AllExports Exports.Listable) (ht : tree.NamesUnbroken)
    (ha : Imports.Listable aliases) (typed : DottedWord) :
    (cache.suggestFor tree aliases typed).Listed := by
  unfold suggestFor
  split
  · refine ⟨hc, fun suggestions h => ?_⟩
    cases h
    exact listable_aliasSuggestions ha typed.word
  · rename_i path hg
    obtain ⟨hcache, hanswer⟩ := hc.exports Exports.listable_empty
      fun modified text _ hx he =>
        Exports.listable_of_exportsOf (ha.modules _ _ hg) (ht path modified text hx) he
    refine ⟨hcache, fun suggestions h => ?_⟩
    obtain ⟨exports, hx, rfl⟩ := exists_of_map_eq_ok h
    exact listable_exportSuggestions (hanswer exports hx) typed.member

theorem listed_suggestAll (ht : tree.NamesUnbroken) (ha : Imports.Listable aliases)
    (buffer : Buffer) (locations : List Nat) (hc : cache.AllExports Exports.Listable) :
    (suggestAll tree aliases buffer locations cache).Listed := by
  -- each location leaves records for the next one
  induction locations generalizing cache with
  | nil =>
    refine ⟨hc, fun suggestions h => ?_⟩
    cases h
    simp
  | cons location rest ih =>
    rw [suggestAll_cons]
    split
    · exact ih hc
    · rename_i typed _
      have hfirst := listed_suggestFor hc ht ha typed
      simp only
      split
      · refine ⟨hfirst.records, fun suggestions h => ?_⟩
        cases h
      · rename_i shown hshown
        have hrest := ih hfirst.records
        refine ⟨hrest.records, fun suggestions h suggestion hm => ?_⟩
        obtain ⟨others, hx, rfl⟩ := exists_of_map_eq_ok h
        rcases List.mem_append.1 hm with hm | hm
        · exact hfirst.suggestions _ hshown suggestion hm
        · exact hrest.suggestions _ hx suggestion hm

end ModuleCache

namespace Session

variable {session : Session} {tree : FileTree}

theorem listed_suggestions (hc : session.cache.AllExports Exports.Listable)
    (ht : tree.NamesUnbroken) (buffer : Buffer) (locations : List Nat) :
    (session.suggestions tree buffer locations).Listed := by
  have hall := ModuleCache.listed_suggestAll ht
    (Imports.listable_ofBuffer session.configuration.importLookahead buffer) buffer locations hc
  exact ⟨hall.records, hall.suggestions⟩

theorem listed_query (hc : session.cache.AllExports Exports.Listable) (ht : tree.NamesUnbroken)
    (buffer : Buffer) (locations : List Nat) :
    (session.query tree buffer locations).cache.AllExports Exports.Listable ∧
      ∀ suggestions, (session.query tree buffer locations).answer = some suggestions →
        ∀ suggestion ∈ suggestions, suggestion.IsListable := by
  have hlisted := listed_suggestions hc ht buffer locations
  rw [query_eq]
  split
  · exact ⟨hc, nofun⟩
  · split
    · simp only
      split
      · rename_i shown hshown
        refine ⟨hlisted.records, fun suggestions h => ?_⟩
        cases h
        exact hlisted.suggestions shown hshown
      · exact ⟨hlisted.records, nofun⟩
    · exact ⟨hc, nofun⟩

/-! ## Runs -/

namespace Moment

/-- All that is recorded can be listed, and so can all that the files will add. -/
structure Listable (moment : Moment) : Prop where
  names : moment.tree.NamesUnbroken
  records : moment.session.cache.AllExports Exports.Listable

theorem Listable.next {moment : Moment} (h : moment.Listable) {happening : Happening}
    (ht : ∀ tree, happening.tree? = some tree → tree.NamesUnbroken) :
    (moment.next happening).Listable := by
  cases happening with
  | change tree => exact ⟨ht tree rfl, h.records⟩
  | request request =>
    refine ⟨h.names, ?_⟩
    cases request with
    | suggestions buffer locations =>
      exact (listed_suggestions h.records h.names buffer locations).records
    | query buffer locations => exact (listed_query h.records h.names buffer locations).1

theorem listable_after {configuration : Configuration} {first : FileTree} {run : List Happening}
    (ht : ∀ tree ∈ trees first run, tree.NamesUnbroken) :
    (after ⟨first, new configuration⟩ run).Listable := by
  have hstart : Listable ⟨first, new configuration⟩ :=
    ⟨ht first (List.mem_cons_self ..), fun path record hm => by cases hm⟩
  have htrees : ∀ tree ∈ run.filterMap Happening.tree?, tree ∈ trees first run := fun tree hm =>
    List.mem_cons_of_mem _ hm
  exact after_of_next
    (fun _ _ hm hchange => hm.next fun tree hh => ht tree (hchange tree hh)) htrees hstart

end Moment

open ListFormat

/-- Lists can be read back from their lines. If no label and no insertion of a list holds a line
feed, and no insertion a tab, then the list is what its lines are cut into at their last tabs, and
no other such list has the same lines. Every list that a session answers with is one, whatever was
asked before and whatever files came and went, in whatever directory the file of the buffer is; only
the names that the modules are parsed to must hold no tabs and no line feeds. -/
theorem lists_read_back :
    (∀ suggestions : List Suggestion, (∀ suggestion ∈ suggestions, suggestion.IsListable) →
      readLines? (write .lines suggestions) = some suggestions ∧
        ∀ others : List Suggestion, (∀ suggestion ∈ others, suggestion.IsListable) →
          write .lines suggestions = write .lines others → suggestions = others) ∧
    ∀ configuration first run, (∀ tree ∈ trees first run, tree.NamesUnbroken) →
      let moment := Moment.after ⟨first, new configuration⟩ run
      ∀ buffer locations suggestions,
        (moment.session.query moment.tree buffer locations).answer = some suggestions →
          ∀ suggestion ∈ suggestions, suggestion.IsListable := by
  constructor
  · exact fun suggestions h => ⟨readLines?_writeLines h, fun others ho => writeLines_inj h ho⟩
  · intro configuration first run ht moment buffer locations
    have hlistable : moment.Listable := Moment.listable_after ht
    exact (listed_query hlistable.records hlistable.names buffer locations).2

/-- A module in a directory whose name breaks a list. -/
def brokenDirectory : FileTree :=
  (FileTree.empty.set ["x\n\ty"] ⟨.directory, ⟨1, 0⟩⟩).set ["a.js", "x\n\ty"]
    ⟨.file "export function f(a) {}".toUTF8, ⟨5, 0⟩⟩

theorem namesUnbroken_brokenDirectory : brokenDirectory.NamesUnbroken := by
  have hparse : (Script.Program.parse? "export function f(a) {}").map Exports.names =
      some ["f", "a"] := by
    decide +kernel
  have hunbroken : ∀ name ∈ ["f", "a"], IsUnbroken name := by decide
  rintro path modified text ⟨bytes, hf, hb⟩ program hp
  obtain ⟨location, -, he⟩ := FileTree.find_eq_ok.1 hf
  rw [brokenDirectory, FileTree.entryAt?_set _ _ (List.cons_ne_nil _ _),
    FileTree.entryAt?_set _ _ (List.cons_ne_nil _ _)] at he
  split at he
  · cases he
    obtain rfl := Option.some.inj (hb.symm.trans (fromUTF8?_toUTF8 _))
    rw [hp, Option.map_some] at hparse
    rwa [Option.some.inj hparse]
  · split at he
    · cases he
    · cases location <;> cases he

/-- The module is in a directory whose name holds a tab and a line feed, as is the file of the
buffer. -/
theorem list_from_broken_directory :
    let buffer : Buffer := ⟨"import * as A from './a.js'\nA.", some ⟨"/x\n\ty/main.js"⟩⟩
    ((new {}).query brokenDirectory buffer [30]).answer =
        some [⟨"f(a)\ta.js", "f($\x7b1:a\x7d)"⟩] ∧
      readLines? "f(a)\ta.js\tf($\x7b1:a\x7d)" = some [⟨"f(a)\ta.js", "f($\x7b1:a\x7d)"⟩] := by
  intro buffer
  have hanswer : ((new {}).query brokenDirectory buffer [30]).answer =
      some [⟨"f(a)\ta.js", "f($\x7b1:a\x7d)"⟩] := by
    decide +kernel
  obtain ⟨hread, hlistable⟩ := lists_read_back
  have hnames : ∀ tree ∈ trees brokenDirectory [], tree.NamesUnbroken := fun tree hm =>
    List.mem_singleton.1 hm ▸ namesUnbroken_brokenDirectory
  have hall := hlistable {} brokenDirectory [] hnames buffer [30] _ hanswer
  exact ⟨hanswer, (hread _ hall).1⟩

end Session

end EsmCompletion
