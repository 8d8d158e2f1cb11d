/-!
Natural numbers in decimal digits, as far as they fit into 64 bits.
-/

namespace EsmCompletion

def decimalValue (digits : List Char) : Nat :=
  digits.foldl (fun value c => 10 * value + (c.toNat - '0'.toNat)) 0

/-- The numbers below this bound fit into 64 bits. -/
def wordBound : Nat := 18446744073709551616

/-- The number that a text of digits writes, if it fits into 64 bits. -/
def decimalWord? (text : List Char) : Option Nat :=
  if text ≠ [] ∧ text.all Char.isDigit ∧ decimalValue text < wordBound then
    some (decimalValue text)
  else none

/-- The same where a plus sign may stand in front of the digits. -/
def signedWord? : List Char → Option Nat
  | '+' :: digits => decimalWord? digits
  | digits => decimalWord? digits

theorem toList_toString (n : Nat) : (toString n).toList = Nat.toDigits 10 n := by
  rw [Nat.toString_eq_ofList_toDigits, String.toList_ofList]

theorem isDigit_of_mem_toString {n : Nat} {c : Char} (h : c ∈ (toString n).toList) :
    c.isDigit = true := by
  rw [toList_toString] at h
  exact Nat.isDigit_of_mem_toDigits (by decide) (by decide) h

/-- Decimal digits are read as they are written. -/
theorem decimalWord?_toString {n : Nat} (h : n < wordBound) :
    decimalWord? (toString n).toList = some n := by
  have hvalue : decimalValue (toString n).toList = n := by
    rw [toList_toString]
    exact Nat.ofDigitChars_ten_toDigits
  have hne : (toString n).toList ≠ [] := by
    rw [toList_toString]
    exact Nat.toDigits_ne_nil
  have hall : (toString n).toList.all Char.isDigit = true :=
    List.all_eq_true.2 fun c hc => isDigit_of_mem_toString hc
  rw [decimalWord?, hvalue, if_pos ⟨hne, hall, h⟩]

end EsmCompletion
