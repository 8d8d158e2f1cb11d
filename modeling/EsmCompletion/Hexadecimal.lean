/-!
Hexadecimal digits and the code points written with them in escapes.
-/

namespace EsmCompletion

def hexDigit? (c : Char) : Option Nat :=
  if c.isDigit then some (c.toNat - '0'.toNat)
  else if 'a' ≤ c && c ≤ 'f' then some (c.toNat - 'a'.toNat + 10)
  else if 'A' ≤ c && c ≤ 'F' then some (c.toNat - 'A'.toNat + 10)
  else none

def hexNumber? (cs : List Char) : Option Nat :=
  cs.foldlM (fun value c => (hexDigit? c).map (16 * value + ·)) 0

/-- The code point between the braces of `\u{…}`: at least one digit, at most U+10FFFF. -/
def bracedCodePoint? (digits : List Char) : Option Nat :=
  if digits.isEmpty then none
  else (hexNumber? digits).filter (· ≤ 0x10FFFF)

/-- The character with a given code point; surrogates have none. -/
def characterOf? (codePoint : Nat) : Option Char :=
  if codePoint.isValidChar then some (Char.ofNat codePoint) else none

end EsmCompletion
