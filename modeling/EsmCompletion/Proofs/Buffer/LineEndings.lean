import EsmCompletion.Proofs.Buffer.Line
import Mathlib.Data.List.Induction

/-! # Line breaks of one and of two characters

A text may have a carriage return before each of its line feeds. Its offsets move, by one for each
line feed before them, but the line of a moved offset is the line it had: the carriage return falls
to the line that it ends, where it is trimmed. -/

namespace EsmCompletion.Buffer

/-- A text with a carriage return before each line feed. -/
def addReturns (text : List Char) : List Char :=
  text.flatMap fun c => if c = '\n' then ['\r', '\n'] else [c]

/-- Where an offset of a text has gone to when there are carriage returns in the text. -/
def movedOffset (text : List Char) (offset : Nat) : Nat :=
  offset + (text.take offset).count '\n'

theorem addReturns_append (first second : List Char) :
    addReturns (first ++ second) = addReturns first ++ addReturns second :=
  List.flatMap_append

theorem addReturns_lineFeed_cons (rest : List Char) :
    addReturns ('\n' :: rest) = '\r' :: '\n' :: addReturns rest := rfl

theorem addReturns_cons {c : Char} (hc : c ≠ '\n') (rest : List Char) :
    addReturns (c :: rest) = c :: addReturns rest := by
  simp [addReturns, hc]

theorem addReturns_of_line {line : List Char} (h : '\n' ∉ line) : addReturns line = line := by
  induction line with
  | nil => rfl
  | cons c rest ih =>
    simp only [List.mem_cons, not_or] at h
    rw [addReturns_cons (Ne.symm h.1), ih h.2]

theorem length_addReturns (text : List Char) :
    (addReturns text).length = text.length + text.count '\n' := by
  induction text with
  | nil => rfl
  | cons c rest ih =>
    by_cases hc : c = '\n'
    · subst hc
      rw [addReturns_lineFeed_cons, List.count_cons_self, List.length_cons, List.length_cons, ih,
        List.length_cons]
      omega
    · rw [addReturns_cons hc, List.count_cons_of_ne hc, List.length_cons, ih, List.length_cons]
      omega

/-- The text up to a moved offset is the text up to the offset, with its carriage returns, and so is
the text from there on. -/
theorem addReturns_split (text : List Char) (offset : Nat) :
    (addReturns text).take (movedOffset text offset) = addReturns (text.take offset) ∧
      (addReturns text).drop (movedOffset text offset) = addReturns (text.drop offset) := by
  rcases Nat.le_total offset text.length with h | h
  · have hsplit : addReturns text =
        addReturns (text.take offset) ++ addReturns (text.drop offset) := by
      rw [← addReturns_append, List.take_append_drop]
    have hlength : (addReturns (text.take offset)).length = movedOffset text offset := by
      rw [length_addReturns, List.length_take_of_le h, movedOffset]
    rw [hsplit]
    exact ⟨List.take_left' hlength, List.drop_left' hlength⟩
  · -- an offset past the end stays past the end
    have hlength : (addReturns text).length ≤ movedOffset text offset := by
      rw [length_addReturns, movedOffset, List.take_of_length_le h]
      omega
    rw [List.take_of_length_le hlength, List.drop_of_length_le hlength,
      List.take_of_length_le h, List.drop_of_length_le h]
    exact ⟨rfl, rfl⟩

/-! ## Lines -/

theorem takeWhile_reverse_addReturns (text : List Char) :
    (addReturns text).reverse.takeWhile (· ≠ '\n') = text.reverse.takeWhile (· ≠ '\n') := by
  induction text using List.reverseRecOn with
  | nil => rfl
  | append_singleton rest c ih =>
    rw [addReturns_append, List.reverse_append, List.reverse_append]
    by_cases hc : c = '\n'
    · subst hc
      rfl
    · rw [addReturns_cons hc]
      simpa [addReturns, hc] using ih

theorem takeWhile_addReturns (text : List Char) :
    (addReturns text).takeWhile (· ≠ '\n') = text.takeWhile (· ≠ '\n') ∨
      (addReturns text).takeWhile (· ≠ '\n') = text.takeWhile (· ≠ '\n') ++ ['\r'] := by
  induction text with
  | nil => exact .inl rfl
  | cons c rest ih =>
    by_cases hc : c = '\n'
    · subst hc
      exact .inr rfl
    · rw [addReturns_cons hc]
      simpa [hc] using ih

theorem trimReturns_append_return (line : List Char) :
    trimReturns (line ++ ['\r']) = trimReturns line := by
  simp [trimReturns]

/-- The buffer with a carriage return before each line feed. -/
def withReturns (buffer : Buffer) : Buffer :=
  { buffer with text := String.ofList (addReturns buffer.text.toList) }

def moved (buffer : Buffer) (offset : Nat) : Nat := movedOffset buffer.text.toList offset

/-- A moved offset has the line that the offset has. -/
theorem lineAt_moved (buffer : Buffer) (offset : Nat) :
    buffer.withReturns.lineAt (buffer.moved offset) = buffer.lineAt offset := by
  obtain ⟨htake, hdrop⟩ := addReturns_split buffer.text.toList offset
  simp only [lineAt_eq, lineAround, withReturns, moved, String.toList_ofList, htake, hdrop,
    takeWhile_reverse_addReturns]
  rcases takeWhile_addReturns (buffer.text.toList.drop offset) with h | h
  · rw [h]
  · rw [h, ← List.append_assoc, trimReturns_append_return]

end EsmCompletion.Buffer
