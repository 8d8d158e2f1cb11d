import EsmCompletion.Decimal
import EsmCompletion.Hexadecimal

/-!
JSON values as they are written: members keep their order and repeated names, numbers their digits
and strings their escapes. What a value stands for is asked of it later, so a value that nobody asks
about may be one that has no meaning, such as a string with half of a surrogate pair.
-/

namespace EsmCompletion

/-- One element of a string: a character, or a code unit written as `\uXXXX`. -/
inductive StringUnit where
  | scalar (c : Char)
  | codeUnit (value : Nat)
  deriving DecidableEq, Repr

/-- The character that two surrogates write together. -/
def surrogatePair? (high low : Nat) : Option Char :=
  if 0xD800 ≤ high ∧ high ≤ 0xDBFF ∧ 0xDC00 ≤ low ∧ low ≤ 0xDFFF then
    characterOf? (0x10000 + 0x400 * (high - 0xD800) + (low - 0xDC00))
  else none

/-- The characters that string units stand for; a surrogate counts only in a pair. -/
def decodeUnits? : List StringUnit → Option (List Char)
  | [] => some []
  | .scalar c :: rest => (decodeUnits? rest).map (c :: ·)
  | .codeUnit unit :: rest =>
    match characterOf? unit with
    | some c => (decodeUnits? rest).map (c :: ·)
    | none =>
      match rest with
      | .codeUnit low :: tail =>
        match surrogatePair? unit low with
        | some c => (decodeUnits? tail).map (c :: ·)
        | none => none
      | _ => none

inductive Json where
  | null
  | boolean (value : Bool)
  | number (digits : List Char)
  | string (units : List StringUnit)
  | array (items : List Json)
  | object (members : List (List StringUnit × Json))

namespace Json

/-- The natural number that a value writes without sign, fraction or exponent. -/
def natural? : Json → Option Nat
  | number digits => decimalWord? digits
  | _ => none

def text? : Json → Option String
  | string units => (decodeUnits? units).map String.ofList
  | _ => none

/-- The values of an array, each read in the same way. -/
def listOf? {α : Type} (read? : Json → Option α) : Json → Option (List α)
  | array items => items.mapM read?
  | _ => none

/-- The value under a name, if there is one, or nothing if the name comes twice. -/
def single? (members : List (String × Json)) (name : String) : Option (Option Json) :=
  match members.filter (·.1 = name) with
  | [] => some none
  | [member] => some (some member.2)
  | _ => none

/-- The fields of a record in a given order. A record is an object, whose further members do not
matter, or an array of its fields, where the last ones may be missing. -/
def fields? (names : List String) : Json → Option (List (Option Json))
  | object members => do
    let members ← members.mapM fun member =>
      (decodeUnits? member.1).map fun key => (String.ofList key, member.2)
    names.mapM (single? members)
  | array items =>
    if items.length ≤ names.length then
      some (items.map some ++ List.replicate (names.length - items.length) none)
    else none
  | _ => none

end Json

end EsmCompletion
