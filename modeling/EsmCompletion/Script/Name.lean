import EsmCompletion.Hexadecimal
import EsmCompletion.Script.IdentifierChar

/-!
Names as they are written in source text. An escape stands for one character, which has to be one
that a name may hold at that place.
-/

namespace EsmCompletion.Script

/-- Whether a character may come next in a name whose earlier characters are given. -/
def continuesName (earlier : List Char) (c : Char) : Bool :=
  if earlier.isEmpty then isNameStart c else isNamePart c

/-- Reads a name. `braces` holds the digits read since `\u{` (last first), `earlier` the characters
of the name so far (last first) and `escaped` whether one of them was written as an escape. -/
def readNameFrom : Option (List Char) → List Char → Bool → List Char →
    Option (List Char × Bool × List Char)
  | some digits, earlier, escaped, c :: r =>
    if c == '}' then
      match (bracedCodePoint? digits.reverse).bind characterOf? with
      | some d => if continuesName earlier d then readNameFrom none (d :: earlier) true r else none
      | none => none
    else readNameFrom (some (c :: digits)) earlier escaped r
  | some _, _, _, [] => none
  | none, earlier, escaped, '\\' :: 'u' :: '{' :: r => readNameFrom (some []) earlier escaped r
  | none, earlier, _, '\\' :: 'u' :: h1 :: h2 :: h3 :: h4 :: r =>
    match (hexNumber? [h1, h2, h3, h4]).bind characterOf? with
    | some d => if continuesName earlier d then readNameFrom none (d :: earlier) true r else none
    | none => none
  | none, _, _, '\\' :: _ => none
  | none, earlier, escaped, c :: r =>
    if continuesName earlier c then readNameFrom none (c :: earlier) escaped r
    else some (earlier.reverse, escaped, c :: r)
  | none, earlier, escaped, [] => some (earlier.reverse, escaped, [])

/-- Reads a name at the start of the text: its characters, whether an escape was used, and the text
after it. -/
def readName? (cs : List Char) : Option (List Char × Bool × List Char) :=
  (readNameFrom none [] false cs).filter fun result => !result.1.isEmpty

end EsmCompletion.Script
