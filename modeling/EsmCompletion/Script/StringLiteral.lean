import EsmCompletion.Hexadecimal
import EsmCompletion.Script.IdentifierChar
import EsmCompletion.Script.NumericLiteral

/-!
String literals. A value is text. Half of a surrogate pair, which an escape can write on its own, is no
character; in the value it stands as the escape itself, in small letters.
-/

namespace EsmCompletion.Script

def isHighSurrogate (point : Nat) : Bool := 0xD800 ≤ point && point ≤ 0xDBFF

def isLowSurrogate (point : Nat) : Bool := 0xDC00 ≤ point && point ≤ 0xDFFF

def joinSurrogates (high low : Nat) : Nat :=
  0x10000 + 0x400 * (high - 0xD800) + (low - 0xDC00)

namespace StringLiteral

open NumericLiteral (isOctalDigit)

/-- The character that a backslash and one more character stand for. -/
def simpleEscape (c : Char) : Char :=
  match c with
  | 'n' => '\n'
  | 't' => '\t'
  | 'b' => '\x08'
  | 'v' => '\x0b'
  | 'f' => '\x0c'
  | 'r' => '\r'
  | c => c

def octalValue (c : Char) : Nat := c.toNat - '0'.toNat

/-- The escape of a code point that is no character. -/
def escapeOf (point : Nat) : List Char := '\\' :: 'u' :: Nat.toDigits 16 point

/-- What stands for a code point in a value. -/
def charsOf (point : Nat) : List Char :=
  match characterOf? point with
  | some c => [c]
  | none => escapeOf point

/-- Reads up to the closing quote. `braces` holds the digits read since `\u{` (last first) and
`earlier` the value so far (last first). A high surrogate and another escape `\u` right behind it are
read together, and the latter then has no braces. A raw line feed or carriage return ends no literal;
a backslash in front of a line terminator continues it on the next line. -/
def readFrom (quote : Char) : Option (List Char) → List Char → List Char →
    Option (List Char × List Char)
  | some digits, earlier, c :: r =>
    if c == '}' then
      match bracedCodePoint? digits.reverse with
      | some point => readFrom quote none ((charsOf point).reverse ++ earlier) r
      | none => none
    else readFrom quote (some (c :: digits)) earlier r
  | some _, _, [] => none
  | none, earlier, '\\' :: 'u' :: '{' :: r => readFrom quote (some []) earlier r
  | none, earlier, '\\' :: 'u' :: h1 :: h2 :: h3 :: h4 :: r =>
    match hexNumber? [h1, h2, h3, h4] with
    | some point =>
      if isHighSurrogate point then
        match r with
        | '\\' :: 'u' :: l1 :: l2 :: l3 :: l4 :: t =>
          match hexNumber? [l1, l2, l3, l4] with
          | some low =>
            if isLowSurrogate low then
              readFrom quote none
                ((charsOf (joinSurrogates point low)).reverse ++ earlier) t
            else
              readFrom quote none
                ((escapeOf low).reverse ++ (escapeOf point).reverse ++ earlier) t
          | none => none
        | t => readFrom quote none ((escapeOf point).reverse ++ earlier) t
      else readFrom quote none ((charsOf point).reverse ++ earlier) r
    | none => none
  | none, earlier, '\\' :: 'x' :: h1 :: h2 :: r =>
    match hexNumber? [h1, h2] with
    | some point => readFrom quote none ((charsOf point).reverse ++ earlier) r
    | none => none
  | none, earlier, '\\' :: '\r' :: '\n' :: r => readFrom quote none earlier r
  | none, earlier, '\\' :: c :: r =>
    if c == 'u' || c == 'x' then none
    else if isLineTerminator c then readFrom quote none earlier r
    else if isOctalDigit c then
      match r with
      | d :: e :: t =>
        if c ≤ '3' && isOctalDigit d && isOctalDigit e then
          readFrom quote none
            (Char.ofNat (64 * octalValue c + 8 * octalValue d + octalValue e) :: earlier) t
        else if isOctalDigit d then
          readFrom quote none (Char.ofNat (8 * octalValue c + octalValue d) :: earlier) (e :: t)
        else readFrom quote none (Char.ofNat (octalValue c) :: earlier) (d :: e :: t)
      | t => readFrom quote none (Char.ofNat (octalValue c) :: earlier) t
    else readFrom quote none (simpleEscape c :: earlier) r
  | none, earlier, c :: r =>
    if c == quote then some (earlier.reverse, r)
    else if c == '\n' || c == '\r' || c == '\\' then none
    else readFrom quote none (c :: earlier) r
  | none, _, [] => none

/-- Reads a literal after its opening quote and gives its value. -/
def read? (quote : Char) (cs : List Char) : Option (String × List Char) :=
  (readFrom quote none [] cs).map fun result => (String.ofList result.1, result.2)

/-- Whether a value holds no escape of half a surrogate pair. A backslash takes the character behind
it along, so that only every other one of several backslashes starts an escape. -/
def isWellFormed : List Char → Bool
  | '\\' :: 'u' :: h1 :: h2 :: h3 :: h4 :: r =>
    !((hexNumber? [h1, h2, h3, h4]).any fun point => isHighSurrogate point || isLowSurrogate point) &&
      isWellFormed (h1 :: h2 :: h3 :: h4 :: r)
  | '\\' :: _ :: r => isWellFormed r
  | _ :: r => isWellFormed r
  | [] => true

end StringLiteral

end EsmCompletion.Script
