import EsmCompletion.Proofs.Cache.Provenance
import EsmCompletion.Proofs.Exports.Collected
import EsmCompletion.Session

/-! # Typing more narrows the suggestions

What is inserted for an export begins with its name, and behind the name comes nothing or a parenthesis,
which no word holds. So an editor that has the suggestions for a beginning need not ask again when more
is typed: it keeps those whose insertion begins with what is typed now. That what is inserted belongs to
the name it is listed under holds of every module that is parsed, and so of all that a cache can hold. -/

namespace EsmCompletion

/-! ## What is inserted for a name -/

/-- A suggestion for a name: the name is shown first, and the name or a call of it is inserted. -/
structure Suggestion.IsFor (suggestion : Suggestion) (name : String) : Prop where
  label : name.toList <+: suggestion.label.toList
  insertion : suggestion.insertion = name ∨
    ∃ arguments, suggestion.insertion.toList = name.toList ++ '(' :: arguments

namespace Suggestion

variable {suggestion : Suggestion} {name typed : String}

theorem isFor_value (moduleName name : String) : (value moduleName name).IsFor name :=
  ⟨by simp [value], .inl rfl⟩

theorem isFor_callable (moduleName name : String) (parameters : List String) :
    (callable moduleName name parameters).IsFor name :=
  ⟨by simp [callable], .inr ⟨(", ".intercalate (placeholdersFrom 1 parameters) ++ ")").toList,
    by simp [callable]⟩⟩

theorem isFor_ofAlias (moduleAlias : String) : (ofAlias moduleAlias).IsFor moduleAlias :=
  ⟨by simp [ofAlias], .inl rfl⟩

end Suggestion

theorem startsWith_iff {text beginning : String} :
    startsWith text beginning = true ↔ beginning.toList <+: text.toList :=
  List.isPrefixOf_iff_prefix

/-- What does not hold a letter begins a text in front of that letter, if it begins the text at all. -/
theorem prefix_append_cons_iff {α : Type} {c : α} {text rest beginning : List α}
    (h : c ∉ beginning) : beginning <+: text ++ c :: rest ↔ beginning <+: text := by
  constructor
  · intro hb
    rcases List.prefix_or_prefix_of_prefix hb (List.prefix_append text (c :: rest)) with hp | hp
    · exact hp
    · obtain ⟨beyond, rfl⟩ := hp
      cases beyond with
      | nil => simp
      | cons d beyond =>
        obtain ⟨rfl, -⟩ := List.cons_prefix_cons.1 ((List.prefix_append_right_inj text).1 hb)
        exact absurd (List.mem_append_right _ (List.mem_cons_self ..)) h
  · exact fun hb => hb.trans (List.prefix_append text (c :: rest))

namespace Suggestion.IsFor

variable {suggestion : Suggestion} {name typed : String}

/-- What is typed begins an insertion exactly if it begins the name. -/
theorem startsWith_insertion (h : suggestion.IsFor name) (hp : '(' ∉ typed.toList) :
    startsWith suggestion.insertion typed = startsWith name typed := by
  rcases h.insertion with he | ⟨arguments, he⟩
  · rw [he]
  · rw [Bool.eq_iff_iff, startsWith_iff, startsWith_iff, he]
    exact prefix_append_cons_iff hp

/-- What begins the name begins all that is shown and inserted. -/
theorem startsWith_both (h : suggestion.IsFor name) (hb : startsWith name typed = true) :
    startsWith suggestion.label typed = true ∧ startsWith suggestion.insertion typed = true := by
  rw [startsWith_iff] at hb
  refine ⟨startsWith_iff.2 (hb.trans h.label), startsWith_iff.2 ?_⟩
  rcases h.insertion with he | ⟨arguments, he⟩
  · rwa [he]
  · rw [he]
    exact hb.trans (List.prefix_append ..)

end Suggestion.IsFor

/-! ## Exports under their names -/

namespace Exports

/-- Every suggestion is for the name it is listed under. -/
def Named (exports : ExportMap) : Prop := ∀ entry ∈ exports.entries, entry.2.IsFor entry.1

theorem named_empty : Named .empty := fun entry h => by cases h

theorem Item.isFor_suggestion (moduleName : String) (item : Item) :
    (item.suggestion moduleName).IsFor item.name := by
  unfold Item.suggestion
  split
  · exact Suggestion.isFor_callable ..
  · exact Suggestion.isFor_value ..

/-- What is exported by a module that can be parsed is listed under its names. -/
theorem named_of_exportsOf {source moduleName : String} {exports : ExportMap}
    (h : exportsOf source moduleName = .ok exports) : Named exports := by
  obtain ⟨program, -, hitems⟩ := exists_items_of_exportsOf moduleName h
  intro entry hm
  obtain ⟨item, -, rfl⟩ := hitems entry hm
  exact item.isFor_suggestion moduleName

end Exports

/-! ## Narrowing -/

variable {first second : String}

theorem startsWith_of_longer {name : String} (h : first.toList <+: second.toList)
    (hs : startsWith name second = true) : startsWith name first = true :=
  startsWith_iff.2 (h.trans (startsWith_iff.1 hs))

theorem exportSuggestions_narrow {exports : ExportMap} (hn : Exports.Named exports)
    (h : first.toList <+: second.toList) (hp : '(' ∉ second.toList) :
    exportSuggestions exports second =
      (exportSuggestions exports first).filter (startsWith ·.insertion second) := by
  rw [exportSuggestions, exportSuggestions, List.filter_map, List.filter_filter]
  refine congrArg _ (List.filter_congr fun entry hm => ?_)
  have hsame := (hn entry hm).startsWith_insertion hp
  cases hs : startsWith entry.1 second with
  | false => simp [hsame, hs]
  | true => simp [hsame, hs, startsWith_of_longer h hs]

theorem aliasSuggestions_narrow (aliases : Aliases) (h : first.toList <+: second.toList) :
    aliasSuggestions aliases second =
      (aliasSuggestions aliases first).filter (startsWith ·.insertion second) := by
  rw [aliasSuggestions, aliasSuggestions, List.filter_map, List.filter_filter]
  refine congrArg _ (List.filter_congr fun name _ => ?_)
  cases hs : startsWith name second with
  | false => simp [Suggestion.ofAlias, hs]
  | true => simp [Suggestion.ofAlias, hs, startsWith_of_longer h hs]

theorem exportSuggestions_startsWith {exports : ExportMap} (hn : Exports.Named exports)
    {suggestion : Suggestion} (hm : suggestion ∈ exportSuggestions exports first) :
    startsWith suggestion.label first = true ∧ startsWith suggestion.insertion first = true := by
  obtain ⟨entry, he, rfl⟩ := List.mem_map.1 hm
  obtain ⟨hmem, hs⟩ := List.mem_filter.1 he
  exact (hn entry hmem).startsWith_both hs

theorem aliasSuggestions_startsWith {aliases : Aliases} {suggestion : Suggestion}
    (hm : suggestion ∈ aliasSuggestions aliases first) :
    startsWith suggestion.label first = true ∧ startsWith suggestion.insertion first = true := by
  obtain ⟨name, he, rfl⟩ := List.mem_map.1 hm
  exact (Suggestion.isFor_ofAlias name).startsWith_both (List.mem_filter.1 he).2

namespace ModuleCache

/-- All that is recorded is listed under its names. -/
def AllNamed (cache : ModuleCache) : Prop :=
  ∀ path record, (path, record) ∈ cache.records → Exports.Named record.exports

/-- Whatever happens, a cache holds what modules export under its names. -/
theorem allNamed_after (files : Files) (run : List Happening) :
    ((Moment.start files).after run).cache.AllNamed := by
  intro path record hm
  obtain ⟨_, _, _, -, -, -, text, -, he⟩ := allRecorded_after files run path record hm
  exact Exports.named_of_exportsOf he

theorem AllNamed.exports {cache : ModuleCache} (h : cache.AllNamed) {tree : FileTree} {path : Path}
    {found : ExportMap} (hf : (cache.exports tree path).answer = .ok found) : Exports.Named found :=
  (AllExports.exports h Exports.named_empty
    fun _ _ _ _ he => Exports.named_of_exportsOf he).2 found hf

variable {aliases : Aliases} {word : String}

theorem suggestFor_known {path : Path} (h : aliases.get? word = some path) (cache : ModuleCache)
    (tree : FileTree) (typed : String) :
    cache.suggestFor tree aliases ⟨word, typed⟩ =
      (cache.exports tree path).map (·.map (exportSuggestions · typed)) := by
  simp only [suggestFor, h]

theorem suggestFor_unknown (h : aliases.get? word = none) (cache : ModuleCache) (tree : FileTree)
    (typed : String) :
    cache.suggestFor tree aliases ⟨word, typed⟩ =
      ⟨cache, .ok (aliasSuggestions aliases word), []⟩ := by
  simp only [suggestFor, h]

/-- Behind an alias, a longer word narrows the answer, and nothing else of the outcome depends on it. -/
theorem suggestFor_narrow {cache : ModuleCache} (hc : cache.AllNamed) {path : Path}
    (h : aliases.get? word = some path) (tree : FileTree) (hb : first.toList <+: second.toList)
    (hp : '(' ∉ second.toList) :
    cache.suggestFor tree aliases ⟨word, second⟩ =
      (cache.suggestFor tree aliases ⟨word, first⟩).map
        (·.map (List.filter (startsWith ·.insertion second))) := by
  rw [suggestFor_known h, suggestFor_known h]
  simp only [Outcome.map]
  cases hx : (cache.exports tree path).answer with
  | error fault => rfl
  | ok exports =>
    simp only [Except.map, exportSuggestions_narrow (hc.exports hx) hb hp]

/-- The part of a dotted word that suggestions go on from: what stands behind an alias, or else the
word. -/
def beginning (aliases : Aliases) (typed : DottedWord) : String :=
  if (aliases.get? typed.word).isSome then typed.member else typed.word

theorem suggestFor_startsWith {cache : ModuleCache} (hc : cache.AllNamed) {tree : FileTree}
    {typed : DottedWord} {suggestions : List Suggestion}
    (h : (cache.suggestFor tree aliases typed).answer = .ok suggestions) :
    ∀ suggestion ∈ suggestions, startsWith suggestion.label (beginning aliases typed) = true ∧
      startsWith suggestion.insertion (beginning aliases typed) = true := by
  unfold beginning
  cases ha : aliases.get? typed.word with
  | none =>
    rw [suggestFor_unknown ha] at h
    cases h
    exact fun suggestion hm => aliasSuggestions_startsWith hm
  | some path =>
    rw [suggestFor_known ha, Outcome.map] at h
    obtain ⟨exports, hx, rfl⟩ := exists_of_map_eq_ok h
    exact fun suggestion hm => exportSuggestions_startsWith (hc.exports hx) hm

open Unicode

/-- Typing more narrows the suggestions, whatever the cache was used for before. Behind an alias, the
suggestions for a longer word fail with the same fault as those for its beginning, or they are those of
them whose insertion begins with the longer word; and the cache is left alike. A longer word that is no
alias is suggested those aliases that its beginning is suggested and that it begins. So all that is shown
and inserted begins with what was typed. -/
theorem typing_narrows (files : Files) (run : List Happening) (tree : FileTree) (aliases : Aliases) :
    let cache := ((Moment.start files).after run).cache
    (∀ word path, aliases.get? word = some path → ∀ first second : String,
      first.toList <+: second.toList → (∀ c ∈ second.toList, isWord c = true) →
        let shorter := cache.suggestFor tree aliases ⟨word, first⟩
        let longer := cache.suggestFor tree aliases ⟨word, second⟩
        longer.cache = shorter.cache ∧
          ((∃ fault, shorter.answer = .error fault ∧ longer.answer = .error fault) ∨
            ∃ suggestions, shorter.answer = .ok suggestions ∧
              longer.answer = .ok (suggestions.filter (startsWith ·.insertion second)))) ∧
    (∀ first second : DottedWord, aliases.get? first.word = none →
      aliases.get? second.word = none → first.word.toList <+: second.word.toList →
        ∃ suggestions, (cache.suggestFor tree aliases first).answer = .ok suggestions ∧
          (cache.suggestFor tree aliases second).answer =
            .ok (suggestions.filter (startsWith ·.insertion second.word))) ∧
    ∀ typed : DottedWord, ∀ suggestions,
      (cache.suggestFor tree aliases typed).answer = .ok suggestions →
        ∀ suggestion ∈ suggestions,
          startsWith suggestion.label (beginning aliases typed) = true ∧
            startsWith suggestion.insertion (beginning aliases typed) = true := by
  intro cache
  have hnamed : cache.AllNamed := allNamed_after files run
  refine ⟨fun word path ha first second hb hw => ?_, fun first second hf hs hb => ?_,
    fun typed suggestions hanswer => ?_⟩
  · have hparenthesis : '(' ∉ second.toList := fun hm => absurd (hw _ hm) (by decide)
    intro shorter longer
    have hnarrow : longer = shorter.map (·.map (List.filter (startsWith ·.insertion second))) :=
      suggestFor_narrow hnamed ha tree hb hparenthesis
    have hcache : longer.cache = _ := congrArg Outcome.cache hnarrow
    have hanswer : longer.answer = _ := congrArg Outcome.answer hnarrow
    refine ⟨hcache, ?_⟩
    rw [hanswer, Outcome.map]
    cases shorter.answer with
    | error fault => exact .inl ⟨fault, rfl, rfl⟩
    | ok suggestions => exact .inr ⟨suggestions, rfl, rfl⟩
  · rw [suggestFor_unknown hf, suggestFor_unknown hs]
    exact ⟨_, rfl, congrArg Except.ok (aliasSuggestions_narrow aliases hb)⟩
  · exact suggestFor_startsWith hnamed hanswer

/-- A function and a variable with one beginning, in a module that is cached, and two aliases with one
beginning. -/
theorem narrows_to_function :
    let files := Files.oneModule "export function ab(x) {}\nexport let a = 1;" ⟨5, 0⟩
    let cache := ((Moment.start files).after [.fetch ⟨"/m/a.js"⟩]).cache
    let aliases : Aliases := ⟨[("A", ⟨"/m/a.js"⟩), ("Bar", ⟨"/m/b.js"⟩), ("Bazaar", ⟨"/m/c.js"⟩)]⟩
    let answer := fun typed => (cache.suggestFor files.tree aliases typed).answer
    answer ⟨"A", "a"⟩ = .ok [⟨"ab(x)\ta.js", "ab($\x7b1:x\x7d)"⟩, ⟨"a\ta.js", "a"⟩] ∧
      answer ⟨"A", "ab"⟩ = .ok [⟨"ab(x)\ta.js", "ab($\x7b1:x\x7d)"⟩] ∧
      answer ⟨"Ba", ""⟩ = .ok [.ofAlias "Bar", .ofAlias "Bazaar"] ∧
      answer ⟨"Baz", ""⟩ = .ok [.ofAlias "Bazaar"] := by
  intro files cache aliases answer
  have halias : aliases.get? "A" = some ⟨"/m/a.js"⟩ := by decide
  have hwords : ∀ c ∈ "ab".toList, isWord c = true := List.all_eq_true.1 rfl
  have hknown : answer ⟨"A", "a"⟩ =
      .ok [⟨"ab(x)\ta.js", "ab($\x7b1:x\x7d)"⟩, ⟨"a\ta.js", "a"⟩] := by
    decide +kernel
  have hunknown : answer ⟨"Ba", ""⟩ = .ok [.ofAlias "Bar", .ofAlias "Bazaar"] := by decide
  obtain ⟨hexports, haliases, -⟩ :=
    typing_narrows files [.fetch ⟨"/m/a.js"⟩] files.tree aliases
  have hmore : answer ⟨"A", "ab"⟩ = .ok [⟨"ab(x)\ta.js", "ab($\x7b1:x\x7d)"⟩] := by
    obtain ⟨-, ⟨fault, hfault, -⟩ | ⟨suggestions, hs, hlonger⟩⟩ :=
      hexports "A" _ halias "a" "ab" (by decide) hwords
    · cases hknown.symm.trans hfault
    · cases hknown.symm.trans hs
      exact hlonger.trans (congrArg Except.ok (by decide +kernel))
  obtain ⟨suggestions, hs, hlonger⟩ :=
    haliases ⟨"Ba", ""⟩ ⟨"Baz", ""⟩ (by decide) (by decide) (by decide)
  cases hunknown.symm.trans hs
  exact ⟨hknown, hmore, hunknown, hlonger.trans (congrArg Except.ok (by decide +kernel))⟩

end ModuleCache

end EsmCompletion
