import EsmCompletion.Hexadecimal
import EsmCompletion.Script.IdentifierChar

/-!
Numeric literals. Only their extent matters: each reader gives the text after the literal, or
nothing if the literal is malformed.
-/

namespace EsmCompletion.Script.NumericLiteral

/-- Digits after a first one; a separator stands between two digits. -/
def moreDigits (isDigit : Char → Bool) : List Char → Option (List Char)
  | '_' :: c :: r => if isDigit c then moreDigits isDigit r else none
  | ['_'] => none
  | c :: r => if isDigit c then moreDigits isDigit r else some (c :: r)
  | [] => some []

/-- At least one digit. -/
def digits (isDigit : Char → Bool) : List Char → Option (List Char)
  | c :: r => if isDigit c then moreDigits isDigit r else none
  | [] => none

/-- A literal is not directly followed by a digit or the start of a name. -/
def finish (r : List Char) : Option (List Char) :=
  match r with
  | c :: _ => if c.isDigit || isNameStart c then none else some r
  | [] => some []

/-- The end of an integer literal, which may carry the suffix of a big integer. -/
def finishInteger : List Char → Option (List Char)
  | 'n' :: r => finish r
  | r => finish r

/-- The sign and the digits of an exponent. -/
def exponentDigits : List Char → Option (List Char)
  | s :: t => digits Char.isDigit (if s == '+' || s == '-' then t else s :: t)
  | [] => none

/-- An exponent, if there is one, and the end of the literal. -/
def exponent : List Char → Option (List Char)
  | c :: r =>
    if c == 'e' || c == 'E' then (exponentDigits r).bind finish else finish (c :: r)
  | [] => some []

/-- What follows the decimal point: digits if any, then an exponent if any. -/
def fraction : List Char → Option (List Char)
  | c :: r => if c.isDigit then (moreDigits Char.isDigit r).bind exponent else exponent (c :: r)
  | [] => some []

/-- What follows the integer digits of a decimal literal. -/
def afterInteger : List Char → Option (List Char)
  | '.' :: r => fraction r
  | 'n' :: r => finish r
  | r => exponent r

def isBinaryDigit (c : Char) : Bool := c == '0' || c == '1'

def isOctalDigit (c : Char) : Bool := '0' ≤ c && c ≤ '7'

def isHexDigit (c : Char) : Bool := (hexDigit? c).isSome

/-- A literal with a leading zero and more digits: octal if all digits allow it, otherwise decimal.
Only the decimal form has a fraction or an exponent, the latter with a small letter; behind that
exponent anything may follow. -/
def leadingZero (cs : List Char) : Option (List Char) :=
  let rest := cs.dropWhile Char.isDigit
  if (cs.takeWhile Char.isDigit).all isOctalDigit then finish rest
  else match rest with
    | '.' :: r => fraction r
    | 'e' :: r => exponentDigits r
    | r => finish r

/-- A literal that starts with the digit zero. Where an exponent follows right behind the zero,
anything may follow the exponent. -/
def afterZero : List Char → Option (List Char)
  | c :: r =>
    if c == 'b' || c == 'B' then (digits isBinaryDigit r).bind finishInteger
    else if c == 'o' || c == 'O' then (digits isOctalDigit r).bind finishInteger
    else if c == 'x' || c == 'X' then (digits isHexDigit r).bind finishInteger
    else if c == 'e' || c == 'E' then exponentDigits r
    else if c.isDigit then leadingZero (c :: r)
    else afterInteger (c :: r)
  | [] => some []

/-- Reads a literal that starts with a digit, or with a point and a digit. -/
def read? : List Char → Option (List Char)
  | '0' :: r => afterZero r
  | '.' :: r => fraction r
  | c :: r => if c.isDigit then (moreDigits Char.isDigit r).bind afterInteger else none
  | [] => none

end EsmCompletion.Script.NumericLiteral
