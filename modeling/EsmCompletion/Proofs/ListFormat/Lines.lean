import EsmCompletion.ListFormat
import EsmCompletion.Proofs.Text.Pieces
import Mathlib.Data.List.DropRight

/-! # Lists that can be read back from lines

The label of an export holds a tab of its own, so a line is cut at its last tab. That is where the
label ends as long as the insertion holds no tab; and the lines are those of the list as long as
nothing in it holds a line feed. -/

namespace EsmCompletion

/-- Whether the line of a suggestion shows where it ends and where its label ends. -/
structure Suggestion.IsListable (suggestion : Suggestion) : Prop where
  label : '\n' ∉ suggestion.label.toList
  insertion : '\n' ∉ suggestion.insertion.toList ∧ '\t' ∉ suggestion.insertion.toList

namespace ListFormat

/-! ## Reading -/

/-- The suggestion that a line is cut into at its last tab. -/
def readLine? (line : List Char) : Option Suggestion :=
  if '\t' ∈ line then
    some
      { label := String.ofList (line.rdropWhile (· ≠ '\t')).dropLast
        insertion := String.ofList (line.rtakeWhile (· ≠ '\t')) }
  else none

/-- The suggestions that the lines of a text are cut into. The empty text has no lines. -/
def readLines? (text : String) : Option (List Suggestion) :=
  if text = "" then some [] else (text.toList.splitOn '\n').mapM readLine?

/-! ## What is written is read -/

/-- The line of a suggestion. -/
def lineOf (suggestion : Suggestion) : List Char :=
  suggestion.label.toList ++ '\t' :: suggestion.insertion.toList

theorem readLine?_lineOf {suggestion : Suggestion} (h : suggestion.IsListable) :
    readLine? (lineOf suggestion) = some suggestion := by
  have hall : ∀ c ∈ suggestion.insertion.toList.reverse, decide (c ≠ '\t') = true := fun c hc =>
    decide_eq_true fun e => h.insertion.2 (e ▸ List.mem_reverse.1 hc)
  have hreverse : (lineOf suggestion).reverse =
      suggestion.insertion.toList.reverse ++ '\t' :: suggestion.label.toList.reverse := by
    simp [lineOf]
  have hlabel : (lineOf suggestion).rdropWhile (· ≠ '\t') = suggestion.label.toList ++ ['\t'] := by
    rw [List.rdropWhile, hreverse, List.dropWhile_append_of_pos hall]
    simp
  have hinsertion : (lineOf suggestion).rtakeWhile (· ≠ '\t') = suggestion.insertion.toList := by
    rw [List.rtakeWhile, hreverse, List.takeWhile_append_of_pos hall]
    simp
  have htab : '\t' ∈ lineOf suggestion := List.mem_append_right _ (List.mem_cons_self ..)
  rw [readLine?, if_pos htab, hlabel, hinsertion]
  simp

theorem mapM_readLine? {suggestions : List Suggestion}
    (h : ∀ suggestion ∈ suggestions, suggestion.IsListable) :
    (suggestions.map lineOf).mapM readLine? = some suggestions := by
  induction suggestions with
  | nil => rfl
  | cons first rest ih =>
    have hfirst := readLine?_lineOf (h first (List.mem_cons_self ..))
    have hrest := ih fun suggestion hs => h suggestion (List.mem_cons_of_mem _ hs)
    rw [List.map_cons, List.mapM_cons, hfirst, hrest]
    rfl

theorem toList_writeLines (suggestions : List Suggestion) :
    (writeLines suggestions).toList = ['\n'].intercalate (suggestions.map lineOf) := by
  have hlines : (suggestions.map fun suggestion =>
      suggestion.label ++ "\t" ++ suggestion.insertion).map String.toList =
        suggestions.map lineOf := by
    simp [lineOf]
  rw [writeLines, String.toList_intercalate, hlines]
  rfl

theorem writeLines_ne_empty {suggestions : List Suggestion} (hne : suggestions ≠ []) :
    writeLines suggestions ≠ "" := by
  have hlines : ['\n'].intercalate (suggestions.map lineOf) ≠ [] := by
    refine intercalate_ne_nil (by simpa using hne) fun line hm => ?_
    obtain ⟨suggestion, -, rfl⟩ := List.mem_map.1 hm
    simp [lineOf]
  rw [← toList_writeLines] at hlines
  simpa using hlines

/-- The lines of a list are read as the list. -/
theorem readLines?_writeLines {suggestions : List Suggestion}
    (h : ∀ suggestion ∈ suggestions, suggestion.IsListable) :
    readLines? (writeLines suggestions) = some suggestions := by
  rcases eq_or_ne suggestions [] with rfl | hne
  · rfl
  · have hfeed : ∀ line ∈ suggestions.map lineOf, '\n' ∉ line := by
      intro line hm
      obtain ⟨suggestion, hs, rfl⟩ := List.mem_map.1 hm
      have hlistable := h suggestion hs
      simp [lineOf, hlistable.label, hlistable.insertion.1]
    have hsplit := List.splitOn_intercalate _ hfeed (by simpa using hne)
    rw [readLines?, if_neg (writeLines_ne_empty hne), toList_writeLines, hsplit]
    exact mapM_readLine? h

/-- Lists are told apart by their lines. -/
theorem writeLines_inj {suggestions others : List Suggestion}
    (h : ∀ suggestion ∈ suggestions, suggestion.IsListable)
    (ho : ∀ suggestion ∈ others, suggestion.IsListable)
    (he : writeLines suggestions = writeLines others) : suggestions = others := by
  have hread := readLines?_writeLines h
  rw [he, readLines?_writeLines ho] at hread
  exact (Option.some.inj hread).symm

end ListFormat

end EsmCompletion
