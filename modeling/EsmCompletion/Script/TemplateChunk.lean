import EsmCompletion.Hexadecimal
import EsmCompletion.Script.StringLiteral

/-!
The chunks of a template literal: the text from a grave accent or from the brace that closes a
substitution up to the next substitution or the closing grave accent.
-/

namespace EsmCompletion.Script

/-- A chunk of a template. An ill-formed escape is an error in an untagged template only. -/
structure TemplateChunk where
  wellFormed : Bool
  /-- Whether the chunk ends the template. -/
  last : Bool
  deriving DecidableEq, Repr

namespace TemplateChunk

/-- Whether a high surrogate is followed by anything but an escape `\u` that lacks its four
digits. -/
def lowSurrogateFits : List Char → Bool
  | '\\' :: 'u' :: h1 :: h2 :: h3 :: h4 :: _ => (hexNumber? [h1, h2, h3, h4]).isSome
  | '\\' :: 'u' :: _ => false
  | _ => true

/-- Whether `\u` is followed by a code point. -/
def unicodeFollows : List Char → Bool
  | '{' :: r =>
    let digits := r.takeWhile (· != '}')
    (bracedCodePoint? digits).isSome && !(r.dropWhile (· != '}')).isEmpty
  | h1 :: h2 :: h3 :: h4 :: r =>
    match hexNumber? [h1, h2, h3, h4] with
    | some point => !isHighSurrogate point || lowSurrogateFits r
    | none => false
  | _ => false

/-- Whether `\x` is followed by two digits. -/
def hexPairFollows : List Char → Bool
  | h1 :: h2 :: _ => (hexNumber? [h1, h2]).isSome
  | _ => false

/-- Whether a backslash, the character `c` and the text after it form an escape. Templates have no
octal escapes, not even a lone digit other than zero. -/
def isEscape (c : Char) (following : List Char) : Bool :=
  if c == 'u' then unicodeFollows following
  else if c == 'x' then hexPairFollows following
  else if c == '0' then !(following.head?.any Char.isDigit)
  else !c.isDigit

/-- Reads the rest of a chunk. -/
def readFrom : Bool → List Char → Option (TemplateChunk × List Char)
  | wellFormed, '$' :: '{' :: r => some (⟨wellFormed, false⟩, r)
  | wellFormed, '\\' :: c :: r => readFrom (wellFormed && isEscape c r) r
  | wellFormed, c :: r =>
    if c == '\x60' then some (⟨wellFormed, true⟩, r) else readFrom wellFormed r
  | _, [] => none

/-- Reads a chunk after the grave accent or brace that opens it. -/
def read? (cs : List Char) : Option (TemplateChunk × List Char) := readFrom true cs

end TemplateChunk

end EsmCompletion.Script
