import EsmCompletion.Proofs.DottedWord.AtEnd
import EsmCompletion.Proofs.Session.Faithful

/-! # Exports are found by their beginnings

Behind an alias and a dot, a session that has nothing cached suggests every export whose name begins
with what was typed. What was typed has to consist of word characters: a name may hold others, a
dollar sign for one, but the word at the end of a line stops at them. -/

namespace EsmCompletion

theorem mem_exportSuggestions {exports : ExportMap} {name typed : String} {suggestion : Suggestion}
    (h : exports.get? name = some suggestion) (hp : typed.toList <+: name.toList) :
    suggestion ∈ exportSuggestions exports typed := by
  obtain ⟨before, after, hentries, -⟩ := List.lookup_eq_some_iff.1 h
  have hmem : (name, suggestion) ∈ exports.entries := by simp [hentries]
  have hstarts : startsWith name typed = true := List.isPrefixOf_iff_prefix.2 hp
  exact List.mem_map.2 ⟨_, List.mem_filter.2 ⟨hmem, hstarts⟩, rfl⟩

namespace Uncached

variable {tree : FileTree} {aliases : Aliases} {path : Path} {modified : Timestamp} {text : String}
  {exports : ExportMap}

theorem contribution_of_alias {line : String} {dotted : DottedWord}
    (hl : DottedWord.ofLine? line = some dotted) (ha : aliases.get? dotted.word = some path)
    (hx : tree.HasText path modified text) (he : exportsOf text path.shownName = .ok exports) :
    contribution tree aliases line = .ok (exportSuggestions exports dotted.member) := by
  simp only [contribution, hl, ha, exports_of_hasText hx, he]
  rfl

theorem query_singleton {configuration : Configuration} {buffer : Buffer} {file : Path}
    {location : Nat} {suggestions : List Suggestion} (hf : buffer.file = some file)
    (hs : configuration.isSource file = true)
    (hc : contribution tree (Imports.ofBuffer configuration.importLookahead buffer)
      (buffer.lineAt location) = .ok suggestions) :
    query configuration tree buffer [location] = some suggestions := by
  simp only [query, hf, hs, if_true, Uncached.suggestions, contributions_cons, hc]
  simp [contributions, Except.bind, Except.map, Except.toOption, pure, Except.pure]

end Uncached

namespace Session

open Unicode

/-- Behind an alias and a dot, an export is suggested for each beginning of its name that consists
of word characters. -/
theorem suggests_export_by_beginning {session : Session} {tree : FileTree} {buffer : Buffer}
    {file path : Path} {word name typed text : String} {modified : Timestamp}
    {exports : ExportMap} {suggestion : Suggestion} {location : Nat} {left : List Char}
    (hempty : session.cache.isEmpty = true) (hfile : buffer.file = some file)
    (hsource : session.configuration.isSource file = true)
    (halias : (session.aliases buffer).get? word = some path)
    (htext : tree.HasText path modified text)
    (hparsed : exportsOf text path.shownName = .ok exports)
    (hname : exports.get? name = some suggestion) (hbegins : typed.toList <+: name.toList)
    (hwords : ∀ c ∈ typed.toList, isWord c = true) (hleft : DottedWord.EndsApart left)
    (hline : (buffer.lineAt location).toList = left ++ (word.toList ++ '.' :: typed.toList)) :
    ∃ suggestions, (session.query tree buffer [location]).answer = some suggestions ∧
      suggestion ∈ suggestions := by
  obtain ⟨hne, hw⟩ := Imports.isWord_of_get?_ofBuffer halias
  have hdotted : DottedWord.ofLine? (buffer.lineAt location) = some ⟨word, typed⟩ := by
    rw [DottedWord.ofLine?, hline, DottedWord.endOf?_dotted hleft hne hw hwords]
    simp
  have hanswer := Uncached.query_singleton hfile hsource
    (Uncached.contribution_of_alias hdotted halias htext hparsed)
  have hfaithful := ModuleCache.faithful_of_isEmpty hempty [tree]
  refine ⟨_, ?_, mem_exportSuggestions hname hbegins⟩
  rw [(query_of_faithful hfaithful (FileTree.timesTell_singleton tree)
    (List.mem_singleton.2 rfl) buffer [location]).1]
  exact hanswer

/-- Half of a name was typed behind an alias, in the middle of an expression. -/
theorem suggests_alpha :
    let buffer : Buffer := ⟨"import * as A from './a.js'\nx = f(A.al", some ⟨"/m/main.js"⟩⟩
    ∃ suggestions,
      ((new {}).query (.oneModule "export let alpha = 1;" ⟨5, 0⟩) buffer [38]).answer =
          some suggestions ∧
        ⟨"alpha\ta.js", "alpha"⟩ ∈ suggestions := by
  intro buffer
  have halias : ((new {}).aliases buffer).get? "A" = some ⟨"/m/a.js"⟩ := by decide +kernel
  have hparsed : exportsOf "export let alpha = 1;" (Path.shownName ⟨"/m/a.js"⟩) =
      .ok ⟨[("alpha", ⟨"alpha\ta.js", "alpha"⟩)]⟩ := rfl
  have hbegins : "al".toList <+: "alpha".toList := by decide
  have hwords : ∀ c ∈ "al".toList, isWord c = true := List.all_eq_true.1 rfl
  have hleft : DottedWord.EndsApart "x = f(".toList := by
    intro c hc
    cases hc
    decide
  have hline : (buffer.lineAt 38).toList =
      "x = f(".toList ++ ("A".toList ++ '.' :: "al".toList) := by decide +kernel
  exact suggests_export_by_beginning rfl rfl (by decide +kernel) halias
    (FileTree.hasText_oneModule _ _) hparsed rfl hbegins hwords hleft hline

/-- A name may begin with a dollar sign. Once that is typed, there is no word at the end of the line
and nothing is suggested. -/
theorem dollar_name_not_suggested :
    let session := new {}
    let tree := FileTree.oneModule "export let $a = 1;" ⟨5, 0⟩
    let buffer : Buffer := ⟨"import * as A from './a.js'\nA.$", some ⟨"/m/main.js"⟩⟩
    let exports : ExportMap := ⟨[("$a", ⟨"$a\ta.js", "$a"⟩)]⟩
    session.cache.isEmpty = true ∧
      session.configuration.isSource ⟨"/m/main.js"⟩ = true ∧
      (session.aliases buffer).get? "A" = some ⟨"/m/a.js"⟩ ∧
      tree.HasText ⟨"/m/a.js"⟩ ⟨5, 0⟩ "export let $a = 1;" ∧
      exportsOf "export let $a = 1;" (Path.shownName ⟨"/m/a.js"⟩) = .ok exports ∧
      exports.get? "$a" = some ⟨"$a\ta.js", "$a"⟩ ∧
      "$".toList <+: "$a".toList ∧
      (buffer.lineAt 31).toList = [] ++ ("A".toList ++ '.' :: "$".toList) ∧
      ¬ ∃ suggestions, (session.query tree buffer [31]).answer = some suggestions ∧
        ⟨"$a\ta.js", "$a"⟩ ∈ suggestions := by
  intro session tree buffer exports
  have hanswer : (session.query tree buffer [31]).answer = some [] := by decide +kernel
  refine ⟨rfl, by decide +kernel, by decide +kernel, FileTree.hasText_oneModule _ _, rfl,
    by decide +kernel, by decide, by decide +kernel, ?_⟩
  rintro ⟨suggestions, hs, hmem⟩
  obtain rfl := Option.some.inj (hanswer.symm.trans hs)
  cases hmem

end Session

end EsmCompletion
