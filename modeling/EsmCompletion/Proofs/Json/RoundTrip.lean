import EsmCompletion.Proofs.Json.Grammar
import Mathlib.Tactic.ByContra

/-! # What is written as JSON is read back

What is written keeps to the grammar, so it is read as the value that it was written for. The reader
finds the end of a string or of an array by itself, and no quote, comma or bracket inside a string is
taken for one that stands between items. -/

namespace EsmCompletion

namespace Json

/-! ## Strings -/

/-- The unit that a character is written as. Control characters without a short escape are written
by their numbers, all others stand for themselves. -/
def unitOf (c : Char) : StringUnit :=
  if IsControl c ∧ c ∉ ['\x08', '\x0c', '\n', '\r', '\t'] then .codeUnit c.toNat else .scalar c

/-- The units that a text is written as. -/
def unitsOf (text : String) : List StringUnit := text.toList.map unitOf

/-- The value that a text is written as. -/
def ofText (text : String) : Json := .string (unitsOf text)

/-- A control character is written with two zeros and two digits. -/
theorem spellsUnit_of_isControl {c : Char} (h : IsControl c) :
    SpellsUnit ['\\', 'u', '0', '0', hexDigit (c.toNat / 16), hexDigit (c.toNat % 16)]
      (.codeUnit c.toNat) := by
  have hall : ∀ n < 0x20, hexDigit (n / 16) ∈ hexDigits ∧ hexDigit (n % 16) ∈ hexDigits ∧
      hexValue ['0', '0', hexDigit (n / 16), hexDigit (n % 16)] = n := by
    decide
  obtain ⟨hhigh, hlow, hvalue⟩ := hall c.toNat h
  have hzero : '0' ∈ hexDigits := by decide
  have hdigits : ∀ digit ∈ ['0', '0', hexDigit (c.toNat / 16), hexDigit (c.toNat % 16)],
      digit ∈ hexDigits := by
    simp [hzero, hhigh, hlow]
  have hspelled := SpellsUnit.number hdigits
  rwa [hvalue] at hspelled

theorem spellsUnit_escape (c : Char) : SpellsUnit (escape c) (unitOf c) := by
  unfold escape
  split
  case h_8 =>
    split
    · rename_i hc
      have hunit : unitOf c = .codeUnit c.toNat := if_pos ⟨hc, by simp_all⟩
      rw [hunit]
      exact spellsUnit_of_isControl hc
    · rename_i hquote hslash _ _ _ _ _ hc
      have hunit : unitOf c = .scalar c := if_neg fun h => hc h.1
      rw [hunit]
      exact .plain hquote hslash hc
  all_goals exact SpellsUnit.short (by decide)

theorem spellsUnits_escape (text : List Char) :
    SpellsUnits (text.flatMap escape) (text.map unitOf) := by
  induction text with
  | nil => exact .nil
  | cons c text ih => exact .cons (spellsUnit_escape c) ih

/-- The writer keeps to the grammar. -/
theorem spells_writeString (text : String) : Spells (writeString text) (ofText text) :=
  .string (spellsUnits_escape text.toList)

theorem characterOf?_toNat (c : Char) : characterOf? c.toNat = some c := by
  have hvalid : c.toNat.isValidChar := c.valid
  rw [characterOf?, if_pos hvalid, Char.ofNat_toNat]

theorem decodeUnits?_unitOf (c : Char) (units : List StringUnit) :
    decodeUnits? (unitOf c :: units) = (decodeUnits? units).map (c :: ·) := by
  unfold unitOf
  split
  · rw [decodeUnits?.eq_def]
    simp only [characterOf?_toNat]
  · rw [decodeUnits?]

theorem decodeUnits?_unitsOf (text : String) : decodeUnits? (unitsOf text) = some text.toList := by
  unfold unitsOf
  induction text.toList with
  | nil => rfl
  | cons c text ih => rw [List.map_cons, decodeUnits?_unitOf, ih]; rfl

theorem text?_ofText (text : String) : text? (ofText text) = some text := by
  rw [ofText, text?, decodeUnits?_unitsOf, Option.map_some, String.ofList_toList]

/-! ## Arrays -/

/-- An array that is written item by item keeps to the grammar if its items do. -/
theorem spells_writeArray {α : Type} {write : α → List Char} {value : α → Json}
    (h : ∀ item, Spells (write item) (value item)) (items : List α) :
    Spells (writeArray (items.map write)) (.array (items.map value)) := by
  have hspells := @Spells.array [] (items.map fun item => ⟨[], write item, [], value item⟩) isGap_nil
    (List.forall_mem_map.2 fun _ _ => ⟨isGap_nil, isGap_nil⟩)
    (List.forall_mem_map.2 fun item _ => h item)
  simpa [writeArray, Item.written, Function.comp_def] using hspells

/-- The items of an array that is written item by item are read item by item. -/
theorem listOf?_array {α β : Type} {read? : Json → Option α} {write : β → Json} {f : β → α}
    (h : ∀ item, read? (write item) = some (f item)) (items : List β) :
    listOf? read? (.array (items.map write)) = some (items.map f) := by
  have hcomp : read? ∘ write = fun item => pure (f item) := funext h
  rw [listOf?, List.mapM_map, hcomp, List.mapM_pure]
  rfl

end Json

namespace ListFormat

/-- The value that a suggestion is written as. -/
def ofSuggestion (suggestion : Suggestion) : Json :=
  .array ([suggestion.label, suggestion.insertion].map Json.ofText)

theorem spells_writePair (suggestion : Suggestion) :
    Json.Spells (writePair suggestion) (ofSuggestion suggestion) :=
  Json.spells_writeArray Json.spells_writeString [suggestion.label, suggestion.insertion]

theorem parse?_writeJson (suggestions : List Suggestion) :
    Json.parse? (writeJson suggestions) = some (.array (suggestions.map ofSuggestion)) := by
  have hspells := Json.spells_writeArray spells_writePair suggestions
  have hread := Json.parse?_of_spells Json.isGap_nil hspells Json.isGap_nil
  rwa [List.nil_append, List.append_nil] at hread

example : write .json [⟨"say \"a\"", "\x01"⟩] = "[[\"say \\\"a\\\"\",\"\\u0001\"]]" := by decide

theorem listOf?_ofSuggestion (suggestion : Suggestion) :
    (ofSuggestion suggestion).listOf? Json.text? =
      some [suggestion.label, suggestion.insertion] := by
  rw [ofSuggestion, Json.listOf?_array Json.text?_ofText, List.map_id']

/-- A list of suggestions is written without control characters, and it is read back as an array
that holds, in order, an array of the label and the insertion of each of them. -/
theorem read_back_as_json (suggestions : List Suggestion) :
    (∀ c ∈ (write .json suggestions).toList, 0x20 ≤ c.toNat) ∧
      ∃ value, Json.parse? (write .json suggestions) = some value ∧
        value.listOf? (Json.listOf? Json.text?) =
          some (suggestions.map fun suggestion => [suggestion.label, suggestion.insertion]) := by
  constructor
  · intro c hm
    by_contra hlow
    exact not_mem_writeJson (Nat.lt_of_not_le hlow) suggestions hm
  · exact ⟨_, parse?_writeJson suggestions, Json.listOf?_array listOf?_ofSuggestion suggestions⟩

end ListFormat

end EsmCompletion
