import EsmCompletion.Unicode.Word

/-!
The word at the end of a line, and what was typed behind the dot after it. The main statement says
that both consist of word characters.
-/

namespace EsmCompletion

/-- A word, and the part of a name that follows its dot. -/
structure DottedWord where
  word : String
  member : String
  deriving DecidableEq, Repr

namespace DottedWord

open Unicode

/-- The dotted word that takes up a text from its first character to its last: a word alone, or a
word, a dot and a second word that may be empty. -/
def spanning? (text : List Char) : Option DottedWord :=
  match text.takeWhile isWord, text.dropWhile isWord with
  | [], _ => none
  | word, [] => some ⟨String.ofList word, ""⟩
  | word, '.' :: typed =>
    if typed.all isWord then some ⟨String.ofList word, String.ofList typed⟩ else none
  | _, _ => none

/-- The dotted word at the end of a text that starts furthest to the left. -/
def endOf? : List Char → Option DottedWord
  | [] => none
  | c :: rest =>
    match spanning? (c :: rest) with
    | some dotted => some dotted
    | none => endOf? rest

def ofLine? (line : String) : Option DottedWord := endOf? line.toList

theorem isWord_of_mem_spanning? {text : List Char} {dotted : DottedWord}
    (h : spanning? text = some dotted) :
    (∀ c ∈ dotted.word.toList, isWord c = true) ∧
      ∀ c ∈ dotted.member.toList, isWord c = true := by
  have hword : ∀ c ∈ text.takeWhile isWord, isWord c = true :=
    List.all_eq_true.1 List.all_takeWhile
  unfold spanning? at h
  split at h
  · contradiction
  · obtain rfl := Option.some.inj h
    simpa using hword
  · split at h
    · next htyped =>
      obtain rfl := Option.some.inj h
      exact ⟨by simpa using hword, by simpa using htyped⟩
    · contradiction
  · contradiction

end DottedWord

end EsmCompletion
