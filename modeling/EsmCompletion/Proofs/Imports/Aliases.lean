import EsmCompletion.Proofs.Imports.Statement
import EsmCompletion.Proofs.Path.NormalForm

/-! # What an alias stands for

An alias is bound by the last import in the window that declares it, to the normal form of the path
that was captured there, read from the directory of the file. Every alias is a word, because the
scan reads nothing else in its place. -/

namespace EsmCompletion

namespace Imports

open Unicode

/-- The last import in the window that declares an alias. -/
def lastStatement? (lookahead : Nat) (buffer : Buffer) (word : String) : Option Statement :=
  ((statements (buffer.slice 0 lookahead).toList).filter
    (String.ofList ·.moduleAlias = word)).getLast?

/-- The relative path that is captured for an alias. -/
def captured? (lookahead : Nat) (buffer : Buffer) (word : String) : Option Path :=
  (lastStatement? lookahead buffer word).map fun statement => ⟨String.ofList statement.path⟩

/-- An alias stands for what was captured for it, read from the directory of the file. -/
theorem get?_ofBuffer {lookahead : Nat} {buffer : Buffer} {file : Path}
    (h : buffer.file = some file) (word : String) :
    (ofBuffer lookahead buffer).get? word =
      (captured? lookahead buffer word).map fun relative =>
        ((directoryOf file).join relative).normalize := by
  unfold ofBuffer
  rw [h]
  simp only [OrderedMap.get?_ofList, List.filter_map, List.getLast?_map, captured?,
    lastStatement?, Option.map_map]
  rfl

theorem exists_captured_of_get? {lookahead : Nat} {buffer : Buffer} {word : String} {path : Path}
    (h : (ofBuffer lookahead buffer).get? word = some path) :
    ∃ file relative, buffer.file = some file ∧ captured? lookahead buffer word = some relative ∧
      path = ((directoryOf file).join relative).normalize := by
  cases hf : buffer.file with
  | none =>
    simp only [ofBuffer, hf] at h
    cases h
  | some file =>
    rw [get?_ofBuffer hf] at h
    obtain ⟨relative, hc, rfl⟩ := Option.map_eq_some_iff.1 h
    exact ⟨file, relative, rfl, hc, rfl⟩

/-- Every alias of a buffer stands for a path in normal form. -/
theorem isNormal_of_get? {lookahead : Nat} {buffer : Buffer} {word : String} {path : Path}
    (h : (ofBuffer lookahead buffer).get? word = some path) : path.IsNormal := by
  obtain ⟨file, relative, -, -, rfl⟩ := exists_captured_of_get? h
  exact Path.isNormal_normalize _

/-! ## Aliases are words, and what they stand for is a relative path -/

theorem statementAt?_of_mem_statementsFrom {skipped : Nat} {text : List Char}
    {statement : Statement} (h : statement ∈ statementsFrom skipped text) :
    ∃ start, statementAt? (text.drop start) = some statement := by
  fun_induction statementsFrom skipped text with
  | case1 => cases h
  | case2 _ _ _ ih =>
    obtain ⟨start, hs⟩ := ih h
    exact ⟨start + 1, hs⟩
  | case3 c rest first hfirst ih =>
    rcases List.mem_cons.1 h with rfl | h
    · exact ⟨0, hfirst⟩
    · obtain ⟨start, hs⟩ := ih h
      exact ⟨start + 1, hs⟩
  | case4 _ _ _ ih =>
    obtain ⟨start, hs⟩ := ih h
    exact ⟨start + 1, hs⟩

theorem exists_statementAt?_of_captured? {lookahead : Nat} {buffer : Buffer} {word : String}
    {relative : Path} (h : captured? lookahead buffer word = some relative) :
    ∃ start statement, statementAt? start = some statement ∧
      String.ofList statement.moduleAlias = word ∧ relative = ⟨String.ofList statement.path⟩ := by
  obtain ⟨statement, hl, rfl⟩ := Option.map_eq_some_iff.1 h
  obtain ⟨hm, hw⟩ := List.mem_filter.1 (List.mem_of_getLast? hl)
  obtain ⟨start, hs⟩ := statementAt?_of_mem_statementsFrom hm
  exact ⟨_, statement, hs, by simpa using hw, rfl⟩

/-- Every alias is a word. -/
theorem isWord_of_mem_keys {lookahead : Nat} {buffer : Buffer} {word : String}
    (h : word ∈ (ofBuffer lookahead buffer).keys) : ∀ c ∈ word.toList, isWord c = true := by
  unfold ofBuffer at h
  split at h
  · cases h
  · rw [OrderedMap.keys_ofList, List.mem_eraseDups, List.map_map] at h
    obtain ⟨statement, hm, rfl⟩ := List.mem_map.1 h
    obtain ⟨start, hs⟩ := statementAt?_of_mem_statementsFrom hm
    simpa [Statement.binding] using (statementAt?_eq_some hs).2.1

/-- What is captured is written as a relative path to a module. -/
theorem isRelative_of_captured? {lookahead : Nat} {buffer : Buffer} {word : String}
    {relative : Path} (h : captured? lookahead buffer word = some relative) :
    IsRelative relative.text.toList := by
  obtain ⟨start, statement, hs, -, rfl⟩ := exists_statementAt?_of_captured? h
  obtain ⟨-, -, hrelative, -⟩ := statementAt?_eq_some hs
  simpa using hrelative

theorem isWord_of_get?_ofBuffer {lookahead : Nat} {buffer : Buffer} {word : String} {path : Path}
    (h : (ofBuffer lookahead buffer).get? word = some path) :
    word.toList ≠ [] ∧ ∀ c ∈ word.toList, isWord c = true := by
  obtain ⟨file, relative, -, hc, -⟩ := exists_captured_of_get? h
  obtain ⟨start, statement, hs, rfl, -⟩ := exists_statementAt?_of_captured? hc
  obtain ⟨hne, hword, -⟩ := statementAt?_eq_some hs
  simpa using And.intro hne hword

end Imports

end EsmCompletion
