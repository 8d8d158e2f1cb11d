import EsmCompletion.Buffer
import EsmCompletion.Proofs.Text.Pieces
import Mathlib.Data.List.DropRight

/-! # The line of an offset

A line is cut out at three byte positions: the position of the offset, the one behind the line feed
before it and the one of the line feed from there on. All three lie in front of a character or at
the end of the text, so the text can be cut there, and what is cut out is what stands between the
two line feeds. That is the piece of the text, split at its line feeds, whose number is that of the
line feeds before the offset. -/

namespace EsmCompletion.Buffer

/-! ## Byte positions -/

@[simp] theorem byteLength_append (first second : List Char) :
    byteLength (first ++ second) = byteLength first + byteLength second := by
  induction first with
  | nil => simp [byteLength]
  | cons c rest ih =>
    simp only [List.cons_append, byteLength, ih]
    omega

theorem byteLength_eq (text : List Char) :
    byteLength text = (String.ofList text).utf8ByteSize := by
  induction text with
  | nil => rfl
  | cons c rest ih =>
    have hsplit : String.ofList (c :: rest) = String.singleton c ++ String.ofList rest := by
      simp
    rw [hsplit, String.utf8ByteSize_append, String.utf8ByteSize_singleton, byteLength, ih]

theorem byteLength_toList (text : String) : byteLength text.toList = text.utf8ByteSize := by
  rw [byteLength_eq, String.ofList_toList]

/-- The position behind the first characters of a text is one at which a character begins, or the
end. -/
theorem isValid_of_append {text : String} {before behind : List Char}
    (h : text.toList = before ++ behind) :
    (⟨byteLength before⟩ : String.Pos.Raw).IsValid text := by
  refine String.Pos.Raw.isValid_iff_exists_append.2
    ⟨String.ofList before, String.ofList behind, ?_, ?_⟩
  · rw [← String.ofList_append, ← h, String.ofList_toList]
  · rw [byteLength_eq]
    rfl

theorem cutAt?_append (before behind : List Char) :
    cutAt? (byteLength before) (before ++ behind) = some (before, behind) := by
  induction before with
  | nil => simp [byteLength, cutAt?]
  | cons c rest ih =>
    have hpos := c.utf8Size_pos
    rw [List.cons_append, byteLength, cutAt?, if_pos (Nat.le_add_right ..), Nat.add_sub_cancel_left,
      ih]
    · rfl
    · omega

/-- What stands between two positions is cut out there. -/
theorem between?_append (before part behind : List Char) :
    between? (byteLength before) (byteLength (before ++ part)) (before ++ part ++ behind) =
      some part := by
  rw [between?, cutAt?_append]
  simp only [Option.bind_eq_bind, Option.bind_some, cutAt?_append]
  rfl

theorem positionedFrom_append (position : Nat) (first second : List Char) :
    positionedFrom position (first ++ second) =
      positionedFrom position first ++ positionedFrom (position + byteLength first) second := by
  induction first generalizing position with
  | nil => rfl
  | cons c rest ih => simp [positionedFrom, byteLength, ih, Nat.add_assoc]

theorem length_positionedFrom (position : Nat) (text : List Char) :
    (positionedFrom position text).length = text.length := by
  induction text generalizing position with
  | nil => rfl
  | cons c rest ih => simp [positionedFrom, ih]

theorem mem_of_mem_positionedFrom {position : Nat} {text : List Char} {entry : Nat × Char}
    (h : entry ∈ positionedFrom position text) : entry.2 ∈ text := by
  induction text generalizing position with
  | nil => cases h
  | cons c rest ih =>
    rcases List.mem_cons.1 h with rfl | h
    · exact List.mem_cons_self ..
    · exact List.mem_cons_of_mem _ (ih h)

/-- The byte position of an offset is behind the characters before it. -/
theorem bytePosition_eq (text : List Char) (offset : Nat) :
    bytePosition text offset = byteLength (text.take offset) := by
  have hsplit := List.take_append_drop offset text
  rcases Nat.lt_or_ge offset text.length with h | h
  · have hlength : (positionedFrom 0 (text.take offset)).length = offset := by
      rw [length_positionedFrom, List.length_take_of_le h.le]
    rw [bytePosition, positioned, ← hsplit, positionedFrom_append, hsplit,
      List.getElem?_append_right hlength.le, hlength, Nat.sub_self, List.drop_eq_getElem_cons h]
    simp [positionedFrom]
  · rw [bytePosition, positioned,
      List.getElem?_eq_none (by rw [length_positionedFrom]; exact h), List.take_of_length_le h]
    rfl

/-! ## Lines -/

/-- What stands in the line of an offset: everything between the line feeds around it. An offset on
a line feed belongs to the line that ends there. -/
def lineAround (text : List Char) (offset : Nat) : List Char :=
  ((text.take offset).reverse.takeWhile (· ≠ '\n')).reverse ++
    (text.drop offset).takeWhile (· ≠ '\n')

/-- A line between what stands above and below it, which a line feed parts from it. -/
structure IsLine (above line below : List Char) : Prop where
  one : '\n' ∉ line
  begins : above = [] ∨ ∃ earlier, above = earlier ++ ['\n']
  ends : below = [] ∨ ∃ later, below = '\n' :: later

namespace IsLine

variable {above left right below : List Char}

theorem left_one (h : IsLine above (left ++ right) below) : '\n' ∉ left := fun hm =>
  h.one (List.mem_append_left _ hm)

theorem right_one (h : IsLine above (left ++ right) below) : '\n' ∉ right := fun hm =>
  h.one (List.mem_append_right _ hm)

/-- The last line feed before a position in a line is the one above the line. -/
theorem lineStart?_eq (h : IsLine above (left ++ right) below) :
    lineStart? (byteLength (above ++ left)) (above ++ left ++ (right ++ below)) =
      some (byteLength above) := by
  have hbefore : between? 0 (byteLength (above ++ left)) (above ++ left ++ (right ++ below)) =
      some (above ++ left) := between?_append [] (above ++ left) (right ++ below)
  have hleft (position : Nat) :
      (positionedFrom position left).reverse.find? (·.2 = '\n') = none := by
    refine List.find?_eq_none.2 fun entry hm => ?_
    have hmem := mem_of_mem_positionedFrom (List.mem_reverse.1 hm)
    simpa using fun e : entry.2 = '\n' => h.left_one (e ▸ hmem)
  rw [lineStart?, hbefore]
  simp only [Option.bind_eq_bind, Option.bind_some, positioned, positionedFrom_append,
    List.reverse_append, List.find?_append, hleft, Option.none_or]
  rcases h.begins with rfl | ⟨earlier, rfl⟩
  · rfl
  · have hsize : '\n'.utf8Size = 1 := rfl
    simp [positionedFrom_append, positionedFrom, byteLength, hsize]

/-- The first line feed from a position in a line on is the one below the line. -/
theorem lineEnd?_eq (h : IsLine above (left ++ right) below) :
    lineEnd? (byteLength (above ++ left)) (above ++ left ++ (right ++ below)) =
      some (byteLength (above ++ left ++ right)) := by
  have hbehind : between? (byteLength (above ++ left))
      (byteLength (above ++ left ++ (right ++ below))) (above ++ left ++ (right ++ below)) =
        some (right ++ below) := by
    simpa using between?_append (above ++ left) (right ++ below) []
  have hright : (positionedFrom 0 right).find? (·.2 = '\n') = none := by
    refine List.find?_eq_none.2 fun entry hm => ?_
    have hmem := mem_of_mem_positionedFrom hm
    simpa using fun e : entry.2 = '\n' => h.right_one (e ▸ hmem)
  rw [lineEnd?, hbehind]
  simp only [Option.bind_eq_bind, Option.bind_some, positioned, positionedFrom_append,
    List.find?_append, hright, Option.none_or]
  rcases h.ends with rfl | ⟨later, rfl⟩
  · simp [positionedFrom]
  · simp [positionedFrom, Nat.add_assoc]

/-- The line of an offset is told by what is around the offset. -/
theorem lineAround_eq (h : IsLine above (left ++ right) below) {text : List Char} {offset : Nat}
    (htake : text.take offset = above ++ left) (hdrop : text.drop offset = right ++ below) :
    lineAround text offset = left ++ right := by
  have hleft : ∀ c ∈ left.reverse, decide (c ≠ '\n') = true := fun c hc => by
    simpa using fun e : c = '\n' => h.left_one (e ▸ List.mem_reverse.1 hc)
  have hright : ∀ c ∈ right, decide (c ≠ '\n') = true := fun c hc => by
    simpa using fun e : c = '\n' => h.right_one (e ▸ hc)
  have habove : above.reverse.takeWhile (· ≠ '\n') = [] := by
    rcases h.begins with rfl | ⟨earlier, rfl⟩ <;> simp
  have hbelow : below.takeWhile (· ≠ '\n') = [] := by
    rcases h.ends with rfl | ⟨later, rfl⟩ <;> simp
  rw [lineAround, htake, hdrop, List.reverse_append, List.takeWhile_append_of_pos hleft,
    List.takeWhile_append_of_pos hright, habove, hbelow]
  simp

/-- A line is the piece of the text whose number is that of the line feeds above it. -/
theorem getElem?_splitOn {line : List Char} (h : IsLine above line below) :
    ((above ++ line ++ below).splitOn '\n')[above.count '\n']? = some line := by
  have hline : (line ++ below).splitOn '\n' = line :: (below.splitOn '\n').tail := by
    rcases h.ends with rfl | ⟨later, rfl⟩
    · simp [List.splitOn_eq_singleton h.one]
    · rw [List.splitOn_append_cons_self, List.splitOn_eq_singleton h.one,
        List.splitOn_cons_eq_if_modifyHead]
      rfl
  rcases h.begins with rfl | ⟨earlier, rfl⟩
  · simp [hline]
  · have hlength := length_splitOn '\n' earlier
    rw [List.append_assoc, List.append_assoc, List.singleton_append,
      List.splitOn_append_cons_self, hline]
    simp [hlength]

end IsLine

/-- Every offset lies in a line: a text is what stands above that line, the line in two parts, and
what stands below it, and the offset is between the two parts. -/
theorem exists_isLine (text : List Char) (offset : Nat) :
    ∃ above left right below, text.take offset = above ++ left ∧
      text.drop offset = right ++ below ∧ IsLine above (left ++ right) below := by
  refine ⟨(text.take offset).rdropWhile (· ≠ '\n'), (text.take offset).rtakeWhile (· ≠ '\n'),
    (text.drop offset).takeWhile (· ≠ '\n'), (text.drop offset).dropWhile (· ≠ '\n'),
    List.rdropWhile_append_rtakeWhile.symm, List.takeWhile_append_dropWhile.symm, ?_, ?_, ?_⟩
  · rw [List.mem_append, not_or]
    constructor
    · intro hm
      simpa using List.mem_rtakeWhile_imp hm
    · intro hm
      simpa using List.mem_takeWhile_imp hm
  · rw [or_iff_not_imp_left]
    intro hne
    have hlast := List.rdropWhile_last_not _ _ hne
    rw [decide_not, Bool.not_eq_true, Bool.not_eq_false', decide_eq_true_iff] at hlast
    exact ⟨_, (List.dropLast_append_getLast hne).symm.trans (by rw [hlast])⟩
  · rw [or_iff_not_imp_left]
    intro hne
    have hhead := List.head_dropWhile_not _ hne
    rw [decide_not, Bool.not_eq_false', decide_eq_true_iff] at hhead
    exact ⟨_, (List.cons_head_tail hne).symm.trans (by rw [hhead])⟩

/-- The line of an offset is cut out at positions in order, at each of which the text can be cut. -/
theorem exists_cuts (text : String) (offset : Nat) :
    let position := bytePosition text.toList offset
    ∃ first last, lineStart? position text.toList = some first ∧
      lineEnd? position text.toList = some last ∧ first ≤ position ∧ position ≤ last ∧
      last ≤ text.utf8ByteSize ∧
      (∀ cut ∈ [first, position, last], (⟨cut⟩ : String.Pos.Raw).IsValid text) ∧
      between? first last text.toList = some (lineAround text.toList offset) := by
  obtain ⟨above, left, right, below, htake, hdrop, h⟩ := exists_isLine text.toList offset
  have htext : text.toList = above ++ left ++ (right ++ below) := by
    rw [← htake, ← hdrop, List.take_append_drop]
  have hlast : text.toList = above ++ left ++ right ++ below := by
    rw [htext, ← List.append_assoc]
  have hbetween := between?_append above (left ++ right) below
  simp only [← List.append_assoc] at hbetween
  intro position
  have hposition : position = byteLength (above ++ left) := by rw [← htake]; exact bytePosition_eq ..
  refine ⟨byteLength above, byteLength (above ++ left ++ right), ?_, ?_, ?_, ?_, ?_, ?_, ?_⟩
  · rw [hposition, htext, h.lineStart?_eq]
  · rw [hposition, htext, h.lineEnd?_eq]
  · simp [hposition]
  · simp [hposition]
  · simp [← byteLength_toList, hlast]
  · rw [hposition]
    intro cut hcut
    rcases List.mem_cons.1 hcut with rfl | hcut
    · exact isValid_of_append (htext.trans (List.append_assoc ..))
    · rcases List.mem_cons.1 hcut with rfl | hcut
      · exact isValid_of_append htext
      · rw [List.mem_singleton.1 hcut]
        exact isValid_of_append hlast
  · rw [h.lineAround_eq htake hdrop, hlast, hbetween]

/-- The line that is cut out is what stands around the offset. -/
theorem lineAt_eq (buffer : Buffer) (offset : Nat) :
    buffer.lineAt offset = String.ofList (trimReturns (lineAround buffer.text.toList offset)) := by
  obtain ⟨first, last, hfirst, hlast, -, -, -, -, hbetween⟩ :=
    exists_cuts buffer.text offset
  rw [lineAt, lineText?, hfirst, hlast]
  simp [hbetween]

/-! ## Pieces -/

/-- What stands around an offset is the piece whose number is that of the line feeds before it. -/
theorem getElem?_lineAround (text : List Char) (offset : Nat) :
    (text.splitOn '\n')[(text.take offset).count '\n']? = some (lineAround text offset) := by
  obtain ⟨above, left, right, below, htake, hdrop, h⟩ := exists_isLine text offset
  have htext : text = above ++ (left ++ right) ++ below := by
    rw [← List.take_append_drop offset text, htake, hdrop]
    simp
  have hnumber : (text.take offset).count '\n' = above.count '\n' := by
    rw [htake, List.count_append, List.count_eq_zero.2 h.left_one, Nat.add_zero]
  rw [hnumber, h.lineAround_eq htake hdrop, htext]
  exact h.getElem?_splitOn

theorem lineFeed_not_mem_lineAround (text : List Char) (offset : Nat) :
    '\n' ∉ lineAround text offset := by
  obtain ⟨above, left, right, below, htake, hdrop, h⟩ := exists_isLine text offset
  rw [h.lineAround_eq htake hdrop]
  exact h.one

theorem lineFeed_not_mem_lineAt (buffer : Buffer) (offset : Nat) :
    '\n' ∉ (buffer.lineAt offset).toList := by
  rw [lineAt_eq, String.toList_ofList]
  exact fun hm => lineFeed_not_mem_lineAround _ _ ((List.rdropWhile_prefix _ _).subset hm)

/-- Offsets with no line feed between them lie in one line. -/
theorem lineAround_congr {text : List Char} {offset other : Nat} (h : offset ≤ other)
    (hn : '\n' ∉ (text.take other).drop offset) : lineAround text other = lineAround text offset := by
  have hsplit : text.take other = text.take offset ++ (text.take other).drop offset := by
    have hfront : (text.take other).take offset = text.take offset := by
      rw [List.take_take, Nat.min_eq_left h]
    rw [← hfront, List.take_append_drop]
  have hcount : (text.take other).count '\n' = (text.take offset).count '\n' := by
    rw [hsplit, List.count_append, List.count_eq_zero.2 hn, Nat.add_zero]
  have hpiece := getElem?_lineAround text other
  rw [hcount, getElem?_lineAround] at hpiece
  exact (Option.some.inj hpiece).symm

/-- The line of an offset is a piece of the text, split at its line feeds, without the carriage
returns at its end: the piece whose number is that of the line feeds before the offset. It is cut
out at byte positions in order, which lie on no inner byte of a character, so that no cut fails. A
line holds no line feed. An offset on a line feed belongs to the line that ends there, one behind
the end of the text to the last line, and offsets with no line feed between them to one line. -/
theorem line_is_piece (buffer : Buffer) (offset : Nat) :
    let text := buffer.text.toList
    let position := bytePosition text offset
    ∃ first last piece,
      lineStart? position text = some first ∧ lineEnd? position text = some last ∧
      first ≤ position ∧ position ≤ last ∧ last ≤ buffer.text.utf8ByteSize ∧
      (∀ cut ∈ [first, position, last], (⟨cut⟩ : String.Pos.Raw).IsValid buffer.text) ∧
      between? first last text = some piece ∧
      (text.splitOn '\n')[(text.take (min offset buffer.length)).count '\n']? = some piece ∧
      (buffer.lineAt offset).toList = piece.rdropWhile (· = '\r') ∧
      '\n' ∉ (buffer.lineAt offset).toList ∧
      (∀ above line below, IsLine above line ('\n' :: below) →
        text = above ++ line ++ '\n' :: below → offset = (above ++ line).length → piece = line) ∧
      (buffer.length ≤ offset → (text.splitOn '\n').getLast? = some piece) ∧
      ∀ other, offset ≤ other → '\n' ∉ (text.take other).drop offset →
        buffer.lineAt other = buffer.lineAt offset := by
  intro text position
  obtain ⟨first, last, hfirst, hlast, hbegins, hends, hsize, hvalid, hbetween⟩ :=
    exists_cuts buffer.text offset
  have htake : text.take (min offset buffer.length) = text.take offset := List.take_eq_take_min.symm
  have hpiece := getElem?_lineAround text offset
  refine ⟨first, last, lineAround text offset, hfirst, hlast, hbegins, hends, hsize, hvalid, hbetween,
    ?_, ?_, lineFeed_not_mem_lineAt buffer offset, ?_, ?_, ?_⟩
  · rw [htake, hpiece]
  · rw [lineAt_eq, String.toList_ofList]
    rfl
  · intro above line below hline htext hoffset
    have hline' : IsLine above (line ++ []) ('\n' :: below) := by rwa [List.append_nil]
    rw [hline'.lineAround_eq (by rw [htext, hoffset, List.take_left])
      (by rw [htext, hoffset, List.drop_left, List.nil_append]), List.append_nil]
  · intro hlength
    rw [List.take_of_length_le hlength] at hpiece
    rw [List.getLast?_eq_getElem?, length_splitOn, Nat.add_sub_cancel, hpiece]
  · intro other hother hnone
    rw [lineAt_eq, lineAt_eq, lineAround_congr hother hnone]

/-- An offset on the line feed behind letters of several bytes, and one at the start of their line.
-/
theorem piece_of_wide_letters :
    let buffer : Buffer := ⟨"é\n😀b\r\nc", none⟩
    bytePosition buffer.text.toList 5 = 9 ∧ buffer.lineAt 5 = "😀b" ∧
      buffer.lineAt 2 = buffer.lineAt 5 ∧ '\n' ∉ (buffer.lineAt 5).toList := by
  intro buffer
  have hline : IsLine "é\n".toList "😀b\r".toList ('\n' :: "c".toList) :=
    ⟨by decide, .inr ⟨['é'], by decide⟩, .inr ⟨['c'], rfl⟩⟩
  have hnone : '\n' ∉ (buffer.text.toList.take 5).drop 2 := by decide
  obtain ⟨-, -, piece, -, -, -, -, -, -, -, -, htrimmed, hfeed, hends, -, -⟩ := line_is_piece buffer 5
  obtain ⟨-, -, -, -, -, -, -, -, -, -, -, -, -, -, -, hsame⟩ := line_is_piece buffer 2
  have hpiece : piece = "😀b\r".toList := hends _ _ _ hline (by decide) (by decide)
  refine ⟨by decide, ?_, (hsame 5 (by decide) hnone).symm, hfeed⟩
  rw [← String.toList_inj, htrimmed, hpiece]
  decide

end EsmCompletion.Buffer
