import EsmCompletion.DottedWord
import EsmCompletion.Proofs.DottedWord.Pattern

/-! # Reading the end of a line

The dotted word of a line is the one that a search from left to right finds, and so the one that is read
backwards: the last word with the word in front of the dot before it. What stands further to the left
decides nothing. -/

namespace EsmCompletion.DottedWord

open Unicode

/-- What is spanned is a word alone, or a word, a dot and a second word. -/
theorem eq_of_spanning? {text : List Char} {dotted : DottedWord}
    (h : spanning? text = some dotted) :
    dotted.word.toList = text.takeWhile isWord ∧ dotted.word.toList ≠ [] ∧
      (text = dotted.word.toList ++ dotted.member.toList ∨
        text = dotted.word.toList ++ '.' :: dotted.member.toList) := by
  have htext := List.takeWhile_append_dropWhile (p := isWord) (l := text)
  unfold spanning? at h
  split at h
  · cases h
  · rename_i hrest hne
    obtain rfl := Option.some.inj h
    rw [hrest] at htext
    exact ⟨by simp, by simpa using hne, .inl (by simpa using htext.symm)⟩
  · rename_i typed hrest hne
    split at h
    · obtain rfl := Option.some.inj h
      rw [hrest] at htext
      exact ⟨by simp, by simpa using hne, .inr (by simpa using htext.symm)⟩
    · cases h
  · cases h

/-- What is spanned is a match, with the longest first word. -/
theorem finds_of_spanning? {text : List Char} {dotted : DottedWord}
    (h : spanning? text = some dotted) :
    Finds isWord text dotted.word.toList dotted.member.toList := by
  obtain ⟨hword, hmember⟩ := isWord_of_mem_spanning? h
  obtain ⟨hlongest, hne, hstands⟩ := eq_of_spanning? h
  refine .here ⟨hne, hword, hmember, hstands⟩ fun word' typed' hm => ?_
  rw [hlongest]
  exact hm.length_le

theorem spanning?_word {word : List Char} (hne : word ≠ []) (hw : ∀ c ∈ word, isWord c = true) :
    spanning? word = some ⟨String.ofList word, ""⟩ := by
  have htake : word.takeWhile isWord = word := List.takeWhile_eq_self_iff.2 hw
  have hdrop : word.dropWhile isWord = [] := List.dropWhile_eq_nil_iff.2 hw
  obtain ⟨c, rest, rfl⟩ := List.exists_cons_of_ne_nil hne
  unfold spanning?
  rw [htake, hdrop]

theorem spanning?_dotted {word typed : List Char} (hne : word ≠ [])
    (hw : ∀ c ∈ word, isWord c = true) (ht : ∀ c ∈ typed, isWord c = true) :
    spanning? (word ++ '.' :: typed) = some ⟨String.ofList word, String.ofList typed⟩ := by
  have htake : (word ++ '.' :: typed).takeWhile isWord = word := by
    rw [List.takeWhile_append_of_pos hw, List.takeWhile_cons, isWord_dot]
    simp
  have hdrop : (word ++ '.' :: typed).dropWhile isWord = '.' :: typed := by
    rw [List.dropWhile_append_of_pos hw, List.dropWhile_cons, isWord_dot]
    simp
  obtain ⟨c, rest, rfl⟩ := List.exists_cons_of_ne_nil hne
  unfold spanning?
  rw [htake, hdrop]
  simp [List.all_eq_true.2 ht]

theorem Matches.exists_spanning? {text word typed : List Char} (h : Matches isWord text word typed) :
    ∃ dotted, spanning? text = some dotted := by
  rcases h.stands with rfl | rfl
  · have hall : ∀ c ∈ word ++ typed, isWord c = true := fun c hc =>
      (List.mem_append.1 hc).elim (h.word_mem c) (h.typed_mem c)
    exact ⟨_, spanning?_word (List.append_ne_nil_of_left_ne_nil h.nonempty typed) hall⟩
  · exact ⟨_, spanning?_dotted h.nonempty h.word_mem h.typed_mem⟩

theorem finds_of_endOf? {text : List Char} {dotted : DottedWord} (h : endOf? text = some dotted) :
    Finds isWord text dotted.word.toList dotted.member.toList := by
  induction text with
  | nil => cases h
  | cons c rest ih =>
    unfold endOf? at h
    split at h
    · rename_i hs
      obtain rfl := Option.some.inj h
      exact finds_of_spanning? hs
    · rename_i hs
      refine .further (fun word' typed' hm => ?_) (ih h)
      obtain ⟨found, hf⟩ := hm.exists_spanning?
      cases hs.symm.trans hf

theorem Finds.exists_endOf? {text word typed : List Char} (h : Finds isWord text word typed) :
    ∃ dotted, endOf? text = some dotted := by
  induction h with
  | @here line word typed hm _ =>
    obtain ⟨found, hf⟩ := hm.exists_spanning?
    cases line with
    | nil => cases hf
    | cons c rest => exact ⟨found, by rw [endOf?, hf]⟩
  | @further c line word typed _ _ ih =>
    rw [endOf?]
    split
    · exact ⟨_, rfl⟩
    · exact ih

/-- The dotted word at the end of a text is read backwards. -/
theorem endOf?_eq_readBack (text : List Char) :
    endOf? text = (readBack isWord text).map fun read =>
      ⟨String.ofList read.1, String.ofList read.2⟩ := by
  cases he : endOf? text with
  | some dotted =>
    have hread := (finds_iff_readBack isWord_dot _ _ _).1 (finds_of_endOf? he)
    rw [hread]
    simp
  | none =>
    cases hread : readBack isWord text with
    | none => rfl
    | some read =>
      obtain ⟨dotted, hd⟩ := ((finds_iff_readBack isWord_dot _ read.1 read.2).2 hread).exists_endOf?
      cases he.symm.trans hd

/-- A text that ends where no word does, or is empty. -/
def EndsApart (text : List Char) : Prop := ∀ c ∈ text.getLast?, isWord c = false

/-- Behind a word and a dot, the word and what was typed are read, whatever stands further left. -/
theorem endOf?_dotted {left word typed : List Char} (hl : EndsApart left) (hne : word ≠ [])
    (hw : ∀ c ∈ word, isWord c = true) (ht : ∀ c ∈ typed, isWord c = true) :
    endOf? (left ++ (word ++ '.' :: typed)) =
      some ⟨String.ofList word, String.ofList typed⟩ := by
  have hgap : 0 < gaps isWord (word ++ '.' :: typed) := gaps_pos (by simp) isWord_dot
  have hfinds : Finds isWord (left ++ (word ++ '.' :: typed)) word typed :=
    (finds_outside_append_iff hl hgap).2 ((finds_dotted_iff isWord_dot hne hw ht).2 ⟨rfl, rfl⟩)
  rw [endOf?_eq_readBack, (finds_iff_readBack isWord_dot _ _ _).1 hfinds]
  rfl

/-- The dotted word of a line is what is read backwards from its end, and the search for a start from
left to right comes to the same for every class of word characters that the dot is not in. What is read
are whole words; nothing is read exactly if the line ends neither in a word nor in a word and one dot; and
what stands in front of two characters outside of words is not read. -/
theorem dotted_word_read_back :
    (∀ line, ofLine? line = (readBack isWord line.toList).map fun read =>
      ⟨String.ofList read.1, String.ofList read.2⟩) ∧
    isWord '.' = false ∧
    ∀ inWord : Char → Bool, inWord '.' = false → ∀ line : List Char,
      (∀ word typed, Finds inWord line word typed ↔ readBack inWord line = some (word, typed)) ∧
      (∀ word typed, readBack inWord line = some (word, typed) →
        word ≠ [] ∧ (∀ c ∈ word ++ typed, inWord c = true) ∧ ∃ left, EndsOutside inWord left ∧
          (line = left ++ (word ++ '.' :: typed) ∨ line = left ++ word ∧ typed = [])) ∧
      (readBack inWord line = none ↔
        ¬ ∃ front c, inWord c = true ∧ (line = front ++ [c] ∨ line = front ++ [c, '.'])) ∧
      (2 ≤ gaps inWord line → ∀ left, readBack inWord (left ++ line) = readBack inWord line) := by
  refine ⟨fun line => endOf?_eq_readBack line.toList, isWord_dot, fun inWord hdot line => ?_⟩
  exact ⟨finds_iff_readBack hdot line, fun word typed h => readBack_eq_some h,
    readBack_eq_none_iff line, readBack_append hdot⟩

/-- Dotted words of letters, one after the other, and a word behind two dots. -/
theorem dotted_word_of_chain :
    Char.isAlpha '.' = false ∧ Finds Char.isAlpha "a.b.c".toList ['b'] ['c'] ∧
      2 ≤ gaps Char.isAlpha ".b.c".toList ∧
      (∀ left, readBack Char.isAlpha (left ++ ".b.c".toList) = some (['b'], ['c'])) ∧
      ofLine? "a..b" = some ⟨"b", ""⟩ := by
  obtain ⟨hline, -, hclass⟩ := dotted_word_read_back
  have hdot : Char.isAlpha '.' = false := by decide
  have hgaps : 2 ≤ gaps Char.isAlpha ".b.c".toList := by decide
  obtain ⟨hfinds, -⟩ := hclass Char.isAlpha hdot "a.b.c".toList
  obtain ⟨-, -, -, hleft⟩ := hclass Char.isAlpha hdot ".b.c".toList
  exact ⟨hdot, (hfinds _ _).2 (by decide), hgaps, fun left => (hleft hgaps left).trans (by decide),
    (hline "a..b").trans (by decide +kernel)⟩

end EsmCompletion.DottedWord
