/-! # Pieces of a text

A text may be made of pieces with a separator between any two of them. What is in none of the pieces
is in the text only if it is in the separator. A letter that a piece does not hold tells where the
piece ends, so pieces that lack the first letter of the separator can be read off the text. -/

namespace EsmCompletion

variable {α : Type}

/-- Where a letter first comes in a text is told by the text. -/
theorem eq_of_append_cons_eq {a : α} {xs ys us vs : List α} (hx : a ∉ xs) (hy : a ∉ ys)
    (h : xs ++ a :: us = ys ++ a :: vs) : xs = ys ∧ us = vs := by
  induction xs generalizing ys with
  | nil =>
    cases ys with
    | nil => exact ⟨rfl, (List.cons.inj h).2⟩
    | cons y ys =>
      obtain rfl := (List.cons.inj h).1
      exact absurd (List.mem_cons_self ..) hy
  | cons x xs ih =>
    simp only [List.mem_cons, not_or] at hx
    cases ys with
    | nil => exact absurd (List.cons.inj h).1.symm hx.1
    | cons y ys =>
      simp only [List.mem_cons, not_or] at hy
      obtain ⟨rfl, htail⟩ := List.cons.inj h
      obtain ⟨rfl, hrest⟩ := ih hx.2 hy.2 htail
      exact ⟨rfl, hrest⟩

/-- The first piece, and then the others with a separator before each of them. -/
theorem intercalate_cons (separator piece : List α) (rest : List (List α)) :
    separator.intercalate (piece :: rest) = piece ++ rest.flatMap (separator ++ ·) := by
  induction rest generalizing piece with
  | nil => simp
  | cons next others ih =>
    rw [List.intercalate_cons_cons, ih, List.flatMap_cons, List.append_assoc, List.append_assoc]

theorem not_mem_intercalate {a : α} {separator : List α} {pieces : List (List α)}
    (hs : a ∉ separator) (hp : ∀ piece ∈ pieces, a ∉ piece) : a ∉ separator.intercalate pieces := by
  cases pieces with
  | nil => simp
  | cons piece rest =>
    rw [intercalate_cons]
    simp only [List.mem_append, List.mem_flatMap, not_or, not_exists, not_and]
    exact ⟨hp piece (List.mem_cons_self ..), fun other ho =>
      ⟨hs, hp other (List.mem_cons_of_mem _ ho)⟩⟩

/-- Pieces with a separator behind each of them. -/
theorem intercalate_append {separator : List α} {pieces : List (List α)} (hne : pieces ≠ []) :
    separator.intercalate pieces ++ separator = pieces.flatMap (· ++ separator) := by
  induction pieces with
  | nil => exact absurd rfl hne
  | cons piece rest ih =>
    cases rest with
    | nil => simp
    | cons next others =>
      rw [List.intercalate_cons_cons, List.append_assoc, ih (List.cons_ne_nil _ _)]
      rfl

/-- A piece that lacks the first letter of the separator behind it is told by the text. -/
theorem flatMap_append_inj {a : α} {tail : List α} {pieces others : List (List α)}
    (hp : ∀ piece ∈ pieces, a ∉ piece) (ho : ∀ piece ∈ others, a ∉ piece)
    (h : pieces.flatMap (· ++ a :: tail) = others.flatMap (· ++ a :: tail)) : pieces = others := by
  induction pieces generalizing others with
  | nil =>
    cases others with
    | nil => rfl
    | cons other others => simp at h
  | cons piece rest ih =>
    cases others with
    | nil => simp at h
    | cons other others =>
      simp only [List.flatMap_cons, List.append_assoc, List.cons_append] at h
      obtain ⟨rfl, htail⟩ := eq_of_append_cons_eq (hp piece (List.mem_cons_self ..))
        (ho other (List.mem_cons_self ..)) h
      rw [ih (fun p hm => hp p (List.mem_cons_of_mem _ hm))
        (fun p hm => ho p (List.mem_cons_of_mem _ hm)) (List.append_cancel_left htail)]

theorem intercalate_ne_nil {separator : List α} {pieces : List (List α)} (hne : pieces ≠ [])
    (hp : ∀ piece ∈ pieces, piece ≠ []) : separator.intercalate pieces ≠ [] := by
  cases pieces with
  | nil => exact absurd rfl hne
  | cons piece rest =>
    have hpiece := hp piece (List.mem_cons_self ..)
    rw [intercalate_cons]
    simp [hpiece]

/-- Pieces that are not empty and lack the first letter of the separator are told by the text. -/
theorem intercalate_inj {a : α} {tail : List α} {pieces others : List (List α)}
    (hp : ∀ piece ∈ pieces, piece ≠ [] ∧ a ∉ piece) (ho : ∀ piece ∈ others, piece ≠ [] ∧ a ∉ piece)
    (h : (a :: tail).intercalate pieces = (a :: tail).intercalate others) : pieces = others := by
  by_cases hpieces : pieces = [] <;> by_cases hothers : others = []
  · rw [hpieces, hothers]
  · subst hpieces
    exact absurd h.symm (intercalate_ne_nil hothers fun piece hm => (ho piece hm).1)
  · subst hothers
    exact absurd h (intercalate_ne_nil hpieces fun piece hm => (hp piece hm).1)
  · have hends : pieces.flatMap (· ++ a :: tail) = others.flatMap (· ++ a :: tail) := by
      rw [← intercalate_append hpieces, ← intercalate_append hothers, h]
    exact flatMap_append_inj (fun piece hm => (hp piece hm).2)
      (fun piece hm => (ho piece hm).2) hends

/-- A text that is cut at a letter has one piece more than the letter comes in it. -/
theorem length_splitOn [BEq α] [LawfulBEq α] (a : α) (text : List α) :
    (text.splitOn a).length = text.count a + 1 := by
  induction text with
  | nil => rfl
  | cons c rest ih =>
    rw [List.splitOn_cons_eq_if_modifyHead, List.count_cons]
    split <;> simp [ih]

end EsmCompletion
