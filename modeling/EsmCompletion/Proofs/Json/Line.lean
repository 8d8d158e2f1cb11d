import EsmCompletion.CommandLine.Serve
import EsmCompletion.Proofs.Text.Pieces

/-! # JSON on one line

What is written as JSON holds no control character, and so no line feed, because strings escape them
and nothing else could bring one in. A text of white space writes no value, so a blank line is never
a request. -/

namespace EsmCompletion

namespace Json

/-! ## Writing -/

/-- A control character is one that strings may hold only escaped. -/
def IsControl (c : Char) : Prop := c.toNat < 0x20

instance : DecidablePred IsControl := fun c => inferInstanceAs (Decidable (c.toNat < 0x20))

theorem not_isControl_hexDigit {value : Nat} (h : value < 16) : ¬ IsControl (hexDigit value) := by
  revert value
  decide

theorem not_isControl_of_mem_escape {c d : Char} (h : d ∈ escape c) : ¬ IsControl d := by
  revert d
  unfold escape
  split
  case h_8 =>
    split
    · rename_i hc
      have hhigh := not_isControl_hexDigit (show c.toNat / 16 < 16 by omega)
      have hlow := not_isControl_hexDigit (Nat.mod_lt c.toNat (show 16 > 0 by omega))
      simp only [List.forall_mem_cons]
      exact ⟨by decide, by decide, by decide, by decide, hhigh, hlow, by simp⟩
    · rename_i hc
      exact fun hm => List.mem_singleton.1 hm ▸ hc
  all_goals
    simp only [List.forall_mem_cons]
    exact ⟨by decide, by decide, by simp⟩

theorem not_isControl_of_mem_writeString {text : String} {c : Char} (h : c ∈ writeString text) :
    ¬ IsControl c := by
  simp only [writeString, List.cons_append, List.mem_cons, List.mem_append, List.mem_flatMap,
    List.not_mem_nil, or_false] at h
  rcases h with rfl | ⟨d, -, hm⟩ | rfl
  · decide
  · exact not_isControl_of_mem_escape hm
  · decide

theorem not_mem_writeArray {c : Char} {items : List (List Char)} (hc : IsControl c)
    (h : ∀ item ∈ items, c ∉ item) : c ∉ writeArray items := by
  have hne (d : Char) (hd : ¬ IsControl d) : c ≠ d := fun e => hd (e ▸ hc)
  have hinside : c ∉ [','].intercalate items :=
    not_mem_intercalate (by simpa using hne ',' (by decide)) h
  simp only [writeArray, List.cons_append, List.mem_cons, List.mem_append, List.not_mem_nil,
    or_false, not_or]
  exact ⟨hne '[' (by decide), hinside, hne ']' (by decide)⟩

end Json

theorem ListFormat.not_mem_writeJson {c : Char} (hc : Json.IsControl c)
    (suggestions : List Suggestion) : c ∉ (writeJson suggestions).toList := by
  rw [writeJson, String.toList_ofList]
  refine Json.not_mem_writeArray hc fun item hm => ?_
  obtain ⟨suggestion, -, rfl⟩ := List.mem_map.1 hm
  refine Json.not_mem_writeArray hc fun text ht hm => ?_
  rcases List.mem_cons.1 ht with rfl | ht
  · exact Json.not_isControl_of_mem_writeString hm hc
  · rw [List.mem_singleton.1 ht] at hm
    exact Json.not_isControl_of_mem_writeString hm hc

/-- A list of suggestions is written on one line. -/
theorem ListFormat.lineFeed_not_mem_writeJson (suggestions : List Suggestion) :
    '\n' ∉ (writeJson suggestions).toList := not_mem_writeJson (by decide) suggestions

namespace Json

/-! ## Reading -/

/-- White space lies below the printable characters of ASCII, or beyond ASCII. -/
theorem toNat_of_isWhiteSpace {c : Char} (h : Unicode.isWhiteSpace c = true) :
    c.toNat < 33 ∨ 127 < c.toNat := by
  have hrange : ∀ range ∈ Unicode.whiteSpace, range.2 < 33 ∨ 127 < range.1 := by decide
  obtain ⟨range, hr, hlow, hhigh⟩ := (Unicode.Ranges.covers_iff ..).1 h
  have := hrange range hr
  omega

theorem isDigit_of_isWhiteSpace {c : Char} (h : Unicode.isWhiteSpace c = true) :
    c.isDigit = false := by
  rw [Bool.eq_false_iff]
  intro hd
  have hc := toNat_of_isWhiteSpace h
  have hrange : 48 ≤ c.toNat ∧ c.toNat ≤ 57 := Char.isDigit_iff_toNat.1 hd
  omega

theorem readUnsigned_of_isWhiteSpace {c : Char} (h : Unicode.isWhiteSpace c = true)
    (rest : List Char) : readUnsigned (c :: rest) = none := by
  have hwhole : readWhole (c :: rest) = none := by
    unfold readWhole
    split
    · rename_i he
      cases he
      cases h
    · simp [readDigits, isDigit_of_isWhiteSpace h]
  simp [readUnsigned, hwhole]

theorem readNumber_of_isWhiteSpace {c : Char} (h : Unicode.isWhiteSpace c = true)
    (rest : List Char) : readNumber (c :: rest) = none := by
  unfold readNumber
  split
  · rename_i he
    cases he
    cases h
  · exact readUnsigned_of_isWhiteSpace h rest

/-- White space is the start of no value. -/
theorem readValue_of_isWhiteSpace {c : Char} (h : Unicode.isWhiteSpace c = true) (fuel : Nat)
    (rest : List Char) : readValue fuel (c :: rest) = none := by
  unfold readValue
  split
  case h_1 => rfl
  case h_8 => rw [readNumber_of_isWhiteSpace h, Option.map_none]
  all_goals
    rename_i he
    cases he
    cases h

theorem parse?_of_white {text : String} (h : text.toList.all Unicode.isWhiteSpace = true) :
    parse? text = none := by
  have hnone : readValue (2 * text.toList.length + 2) (skipSpace text.toList) = none := by
    cases hs : skipSpace text.toList with
    | nil => rfl
    | cons c rest =>
      have hm : c ∈ skipSpace text.toList := by rw [hs]; exact List.mem_cons_self ..
      have hw := List.all_eq_true.1 h c ((List.dropWhile_sublist _).mem hm)
      exact readValue_of_isWhiteSpace hw _ rest
  simp [parse?, hnone]

end Json

/-- A blank line is no request. -/
theorem CommandLine.CompletionRequest.parse?_of_isBlank {line : String}
    (h : isBlank line = true) : parse? line = none := by
  rw [parse?, Json.parse?_of_white h, Option.bind_none]

end EsmCompletion
