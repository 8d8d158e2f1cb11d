import Mathlib.Data.List.DropRight

/-! # A word, a dot and a second word at the end of a line

What is looked for at the end of a line is a word, then a dot or none, then a second word that may be
empty. A search from left to right takes the first start from which the rest of the line is of that
form, and there the longest first word. For every class of word characters without the dot, it comes to
what is read from the end of the line backwards: the last word, and the word in front of the dot before
it, if there are both. The reason is that no start further to the left has a chance: the text from there
would hold two characters outside of words, or one that is not the dot. -/

namespace EsmCompletion.DottedWord

variable {inWord : Char → Bool}

/-- A text is a word, a dot or none, and a second word that may be empty. -/
structure Matches (inWord : Char → Bool) (text word typed : List Char) : Prop where
  nonempty : word ≠ []
  word_mem : ∀ c ∈ word, inWord c = true
  typed_mem : ∀ c ∈ typed, inWord c = true
  stands : text = word ++ typed ∨ text = word ++ '.' :: typed

/-- What a search from left to right finds at the end of a line. Where there is a choice, the first word
takes as much as it can. -/
inductive Finds (inWord : Char → Bool) : List Char → List Char → List Char → Prop
  | here {line word typed : List Char} : Matches inWord line word typed →
      (∀ word' typed', Matches inWord line word' typed' → word'.length ≤ word.length) →
      Finds inWord line word typed
  | further {c : Char} {line word typed : List Char} :
      (∀ word' typed', ¬ Matches inWord (c :: line) word' typed') → Finds inWord line word typed →
      Finds inWord (c :: line) word typed

/-- The last word of a line with the word in front of the dot before it, or else the last word. -/
def readBack (inWord : Char → Bool) (line : List Char) : Option (List Char × List Char) :=
  let last := line.rtakeWhile inWord
  let before := line.rdropWhile inWord
  let word := before.dropLast.rtakeWhile inWord
  if before.getLast? = some '.' ∧ word ≠ [] then some (word, last)
  else if last ≠ [] then some (last, [])
  else none

/-! ## Where nothing is found -/

/-- How many characters of a text belong to no word. -/
def gaps (inWord : Char → Bool) (text : List Char) : Nat := text.countP fun c => !inWord c

theorem gaps_of_words {text : List Char} (h : ∀ c ∈ text, inWord c = true) :
    gaps inWord text = 0 := by
  refine List.countP_eq_zero.2 fun c hc => ?_
  simp [h c hc]

theorem gaps_append (first second : List Char) :
    gaps inWord (first ++ second) = gaps inWord first + gaps inWord second :=
  List.countP_append

theorem gaps_cons (c : Char) (text : List Char) :
    gaps inWord (c :: text) = gaps inWord text + if inWord c then 0 else 1 := by
  cases h : inWord c <;> simp [gaps, h]

theorem gaps_pos {text : List Char} {c : Char} (hc : c ∈ text) (h : inWord c = false) :
    0 < gaps inWord text :=
  List.countP_pos_iff.2 ⟨c, hc, by simp [h]⟩

namespace Matches

variable {text word typed : List Char}

theorem gaps_le (h : Matches inWord text word typed) : gaps inWord text ≤ 1 := by
  have hword := gaps_of_words h.word_mem
  have htyped := gaps_of_words h.typed_mem
  rcases h.stands with rfl | rfl
  · rw [gaps_append]
    omega
  · rw [gaps_append, gaps_cons]
    split <;> omega

theorem eq_dot_of_mem (h : Matches inWord text word typed) {c : Char} (hc : c ∈ text)
    (hout : inWord c = false) : c = '.' := by
  have hnot {part : List Char} (hpart : ∀ d ∈ part, inWord d = true) : c ∉ part := fun hm =>
    Bool.eq_false_iff.1 hout (hpart c hm)
  rcases h.stands with rfl | rfl
  · exact absurd hc (List.mem_append.not.2 (not_or.2 ⟨hnot h.word_mem, hnot h.typed_mem⟩))
  · simpa [hnot h.word_mem, hnot h.typed_mem] using hc

theorem word_begins (h : Matches inWord text word typed) : word <+: text := by
  rcases h.stands with rfl | rfl <;> exact List.prefix_append ..

theorem length_le (h : Matches inWord text word typed) :
    word.length ≤ (text.takeWhile inWord).length := by
  obtain ⟨rest, rfl⟩ := h.word_begins
  rw [List.takeWhile_append_of_pos h.word_mem, List.length_append]
  exact Nat.le_add_right ..

/-- Nothing that is looked for begins outside of words. -/
theorem not_of_head {c : Char} (hout : inWord c = false) : ¬ Matches inWord (c :: text) word typed := by
  intro h
  obtain ⟨first, rest, rfl⟩ := List.exists_cons_of_ne_nil h.nonempty
  obtain ⟨rfl, -⟩ := List.cons_prefix_cons.1 h.word_begins
  exact Bool.eq_false_iff.1 hout (h.word_mem first (List.mem_cons_self ..))

end Matches

/-- Starts that fail can be passed over. -/
theorem finds_append_iff {left text word typed : List Char}
    (h : ∀ before, before <:+ left → before ≠ [] →
      ∀ word' typed', ¬ Matches inWord (before ++ text) word' typed') :
    Finds inWord (left ++ text) word typed ↔ Finds inWord text word typed := by
  induction left with
  | nil => rfl
  | cons c left ih =>
    have hfails := h (c :: left) List.suffix_rfl (List.cons_ne_nil _ _)
    have hrest := ih fun before hb => h before (hb.trans (List.suffix_cons c left))
    rw [List.cons_append] at hfails ⊢
    constructor
    · intro hf
      cases hf with
      | here hm => exact absurd hm (hfails _ _)
      | further _ hf => exact hrest.1 hf
    · exact fun hf => .further hfails (hrest.2 hf)

/-- A text that ends outside of words, or is empty. -/
def EndsOutside (inWord : Char → Bool) (text : List Char) : Prop :=
  ∀ c ∈ text.getLast?, inWord c = false

theorem exists_mem_getLast? {before left : List Char} (hb : before <:+ left) (hne : before ≠ []) :
    ∃ c ∈ before, left.getLast? = some c := by
  obtain ⟨front, rfl⟩ := hb
  refine ⟨before.getLast hne, List.getLast_mem hne, ?_⟩
  rw [List.getLast?_append_of_ne_nil _ hne, List.getLast?_eq_some_getLast hne]

/-- What ends outside of words is passed over in front of a gap. -/
theorem finds_outside_append_iff {left text word typed : List Char} (hl : EndsOutside inWord left)
    (ht : 0 < gaps inWord text) :
    Finds inWord (left ++ text) word typed ↔ Finds inWord text word typed := by
  refine finds_append_iff fun before hb hne word' typed' hm => ?_
  obtain ⟨c, hc, hlast⟩ := exists_mem_getLast? hb hne
  have hgap := gaps_pos hc (hl c hlast)
  have hone := hm.gaps_le
  rw [gaps_append] at hone
  omega

theorem finds_cons_iff {c : Char} {text word typed : List Char} (hout : inWord c = false) :
    Finds inWord (c :: text) word typed ↔ Finds inWord text word typed := by
  rw [← List.singleton_append]
  refine finds_append_iff fun before hb hne word' typed' => ?_
  obtain rfl : before = [c] := by
    rcases List.suffix_cons_iff.1 hb with h | h
    · exact h
    · exact absurd (List.suffix_nil.1 h) hne
  exact Matches.not_of_head hout

/-! ## What is found -/

theorem not_finds_nil {word typed : List Char} : ¬ Finds inWord [] word typed := by
  intro hf
  cases hf with
  | here hm => exact hm.nonempty (List.prefix_nil.1 hm.word_begins)

/-- Where something is looked for, it is found there, with the longest first word. -/
theorem Matches.longest {text word typed word' typed' : List Char}
    (h : Matches inWord text word typed) (hf : Finds inWord text word' typed') :
    Matches inWord text word' typed' ∧ word.length ≤ word'.length := by
  cases hf with
  | here hm hlongest => exact ⟨hm, hlongest _ _ h⟩
  | further hnone => exact absurd h (hnone _ _)

/-- A word alone is found as a whole. -/
theorem finds_word_iff {text word typed : List Char} (hne : text ≠ [])
    (h : ∀ c ∈ text, inWord c = true) : Finds inWord text word typed ↔ word = text ∧ typed = [] := by
  have hall : Matches inWord text text [] := ⟨hne, h, by simp, .inl (List.append_nil _).symm⟩
  constructor
  · intro hf
    obtain ⟨hm, hlongest⟩ := hall.longest hf
    obtain rfl := hm.word_begins.eq_of_length_le hlongest
    rcases hm.stands with hs | hs
    · exact ⟨rfl, by simpa using hs⟩
    · simp at hs
  · rintro ⟨rfl, rfl⟩
    exact .here hall fun word' typed' hm => hm.word_begins.length_le

/-- Two words with a dot between them are read in one way only. -/
theorem Matches.eq_of_dotted (hdot : inWord '.' = false) {first second word typed : List Char}
    (hf : ∀ c ∈ first, inWord c = true)
    (h : Matches inWord (first ++ '.' :: second) word typed) : word = first ∧ typed = second := by
  have hstart {word behind : List Char} (hw : ∀ c ∈ word, inWord c = true) :
      (word ++ '.' :: behind).takeWhile inWord = word := by
    rw [List.takeWhile_append_of_pos hw, List.takeWhile_cons_of_neg (Bool.eq_false_iff.1 hdot),
      List.append_nil]
  have hgap : 0 < gaps inWord (first ++ '.' :: second) := gaps_pos (by simp) hdot
  rcases h.stands with he | he
  · rw [he, gaps_append, gaps_of_words h.word_mem, gaps_of_words h.typed_mem] at hgap
    exact absurd hgap (Nat.lt_irrefl 0)
  · have hwords := congrArg (List.takeWhile inWord) he
    rw [hstart hf, hstart h.word_mem] at hwords
    subst hwords
    exact ⟨rfl, by simpa using he.symm⟩

/-- Two words with a dot between them are found as a whole. -/
theorem finds_dotted_iff (hdot : inWord '.' = false) {first second word typed : List Char}
    (hne : first ≠ []) (hf : ∀ c ∈ first, inWord c = true) (hs : ∀ c ∈ second, inWord c = true) :
    Finds inWord (first ++ '.' :: second) word typed ↔ word = first ∧ typed = second := by
  have hall : Matches inWord (first ++ '.' :: second) first second := ⟨hne, hf, hs, .inr rfl⟩
  constructor
  · intro h
    exact (hall.longest h).1.eq_of_dotted hdot hf
  · rintro ⟨rfl, rfl⟩
    exact .here hall fun word' typed' hm => (hm.eq_of_dotted hdot hf).1 ▸ Nat.le_refl _

/-- No dotted word that starts further to the left reaches into a line's last word, if there is no word
in front of a dot before it. -/
theorem finds_last_iff {left last word typed : List Char} (hl : EndsOutside inWord left)
    (hfront : ∀ front, left = front ++ ['.'] → EndsOutside inWord front) (hdot : inWord '.' = false) :
    Finds inWord (left ++ last) word typed ↔ Finds inWord last word typed := by
  cases hlast : left.getLast? with
  | none =>
    obtain rfl := List.getLast?_eq_none_iff.1 hlast
    rfl
  | some c =>
    by_cases hc : c = '.'
    · obtain ⟨front, rfl⟩ := List.getLast?_eq_some_iff.1 (hc ▸ hlast)
      have hgap : 0 < gaps inWord ('.' :: last) := gaps_pos (List.mem_cons_self ..) hdot
      rw [List.append_assoc, List.singleton_append,
        finds_outside_append_iff (hfront front rfl) hgap, finds_cons_iff hdot]
    · refine finds_append_iff fun before hb hne word' typed' hm => hc ?_
      obtain ⟨d, hd, hsame⟩ := exists_mem_getLast? hb hne
      obtain rfl := Option.some.inj (hlast.symm.trans hsame)
      exact hm.eq_dot_of_mem (List.mem_append_left _ hd) (hl c hlast)

/-! ## Reading backwards -/

theorem endsOutside_rdropWhile (inWord : Char → Bool) (line : List Char) :
    EndsOutside inWord (line.rdropWhile inWord) := by
  intro c hc
  obtain ⟨hne, rfl⟩ := List.mem_getLast?_eq_getLast hc
  exact Bool.eq_false_iff.2 (List.rdropWhile_last_not inWord line hne)

theorem endsOutside_of_rtakeWhile {text : List Char} (h : text.rtakeWhile inWord = []) :
    EndsOutside inWord text := by
  intro c hc
  obtain ⟨hne, rfl⟩ := List.mem_getLast?_eq_getLast hc
  exact Bool.eq_false_iff.2 (List.rtakeWhile_eq_nil_iff.1 h hne)

/-- What is read backwards from the end of a line. -/
inductive Reading (inWord : Char → Bool) : List Char → Option (List Char × List Char) → Prop
  | dotted {left word last : List Char} : EndsOutside inWord left → word ≠ [] →
      (∀ c ∈ word, inWord c = true) → (∀ c ∈ last, inWord c = true) →
      Reading inWord (left ++ (word ++ '.' :: last)) (some (word, last))
  | alone {left last : List Char} : EndsOutside inWord left →
      (∀ front, left = front ++ ['.'] → EndsOutside inWord front) →
      (∀ c ∈ last, inWord c = true) → last ≠ [] → Reading inWord (left ++ last) (some (last, []))
  | nothing {line : List Char} : EndsOutside inWord line →
      (∀ front, line = front ++ ['.'] → EndsOutside inWord front) → Reading inWord line none

theorem reading_readBack (inWord : Char → Bool) (line : List Char) :
    Reading inWord line (readBack inWord line) := by
  have hline : line.rdropWhile inWord ++ line.rtakeWhile inWord = line :=
    List.rdropWhile_append_rtakeWhile
  have hends := endsOutside_rdropWhile inWord line
  have hlast : ∀ c ∈ line.rtakeWhile inWord, inWord c = true := fun c hc =>
    List.mem_rtakeWhile_imp hc
  unfold readBack
  revert hline hends hlast
  generalize line.rtakeWhile inWord = last
  generalize line.rdropWhile inWord = before
  rintro rfl hends hlast
  simp only
  split
  · rename_i h
    obtain ⟨hdot, hne⟩ := h
    obtain ⟨front, rfl⟩ := List.getLast?_eq_some_iff.1 hdot
    rw [List.dropLast_concat] at hne ⊢
    have hfront : front.rdropWhile inWord ++ front.rtakeWhile inWord = front :=
      List.rdropWhile_append_rtakeWhile
    have hread := Reading.dotted (endsOutside_rdropWhile inWord front) hne
      (fun c hc => List.mem_rtakeWhile_imp hc) hlast
    rw [← List.append_assoc, hfront] at hread
    rwa [List.append_assoc]
  · rename_i h
    have hfront (front : List Char) (he : before = front ++ ['.']) : EndsOutside inWord front := by
      subst he
      exact endsOutside_of_rtakeWhile (by simpa using h)
    split
    · rename_i hne
      exact .alone hends hfront hlast hne
    · rename_i hnil
      obtain rfl : last = [] := by simpa using hnil
      rw [List.append_nil]
      exact .nothing hends hfront

/-- The search comes to what is read backwards. -/
theorem finds_iff_readBack (hdot : inWord '.' = false) (line word typed : List Char) :
    Finds inWord line word typed ↔ readBack inWord line = some (word, typed) := by
  have hread := reading_readBack inWord line
  revert hread
  generalize readBack inWord line = found
  intro hread
  cases hread with
  | @dotted left first last hl hne hw hs =>
    have hgap : 0 < gaps inWord (first ++ '.' :: last) := gaps_pos (by simp) hdot
    rw [finds_outside_append_iff hl hgap, finds_dotted_iff hdot hne hw hs]
    simp [eq_comm]
  | alone hl hfront hs hne =>
    rw [finds_last_iff hl hfront hdot, finds_word_iff hne hs]
    simp [eq_comm]
  | nothing hl hfront =>
    rw [← List.append_nil line, finds_last_iff hl hfront hdot]
    simpa using not_finds_nil

/-- What is read are whole words: each ends where it is read and begins where no word goes on. -/
theorem readBack_eq_some {line word typed : List Char}
    (h : readBack inWord line = some (word, typed)) :
    word ≠ [] ∧ (∀ c ∈ word ++ typed, inWord c = true) ∧ ∃ left, EndsOutside inWord left ∧
      (line = left ++ (word ++ '.' :: typed) ∨ line = left ++ word ∧ typed = []) := by
  have hread := reading_readBack inWord line
  rw [h] at hread
  cases hread with
  | dotted hl hne hw hs =>
    refine ⟨hne, fun c hc => ?_, _, hl, .inl rfl⟩
    exact (List.mem_append.1 hc).elim (hw c) (hs c)
  | alone hl _ hs hne =>
    rw [List.append_nil]
    exact ⟨hne, hs, _, hl, .inr ⟨rfl, rfl⟩⟩

/-- What stands in front of two characters outside of words is not read. -/
theorem readBack_append (hdot : inWord '.' = false) {text : List Char}
    (h : 2 ≤ gaps inWord text) (left : List Char) :
    readBack inWord (left ++ text) = readBack inWord text := by
  refine Option.ext fun (word, typed) => ?_
  rw [← finds_iff_readBack hdot, ← finds_iff_readBack hdot]
  refine finds_append_iff fun before _ _ word' typed' hm => ?_
  have hone := hm.gaps_le
  rw [gaps_append] at hone
  omega

/-- Something is read if a line ends in a word or in a word and one dot, and not otherwise. -/
theorem readBack_eq_none_iff (line : List Char) :
    readBack inWord line = none ↔
      ¬ ∃ front c, inWord c = true ∧ (line = front ++ [c] ∨ line = front ++ [c, '.']) := by
  have hread := reading_readBack inWord line
  revert hread
  generalize readBack inWord line = found
  intro hread
  cases hread with
  | @dotted left word last _ hne hw hs =>
    simp only [reduceCtorEq, false_iff, not_not]
    rcases List.eq_nil_or_concat' last with rfl | ⟨front, c, rfl⟩
    · obtain ⟨front, c, rfl⟩ := (List.eq_nil_or_concat' word).resolve_left hne
      exact ⟨left ++ front, c, hw c (by simp), .inr (by simp)⟩
    · exact ⟨left ++ (word ++ '.' :: front), c, hs c (by simp), .inl (by simp)⟩
  | @alone left last _ _ hs hne =>
    simp only [reduceCtorEq, false_iff, not_not]
    obtain ⟨front, c, rfl⟩ := (List.eq_nil_or_concat' last).resolve_left hne
    exact ⟨left ++ front, c, hs c (by simp), .inl (by simp)⟩
  | nothing hl hfront =>
    simp only [true_iff]
    rintro ⟨front, c, hc, rfl | rfl⟩
    · exact Bool.eq_false_iff.1 (hl c (by simp)) hc
    · exact Bool.eq_false_iff.1 (hfront (front ++ [c]) (by simp) c (by simp)) hc

end EsmCompletion.DottedWord
