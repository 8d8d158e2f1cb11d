/-!
Punctuators of JavaScript, recognised by the longest match.
-/

namespace EsmCompletion.Script

inductive Punctuator where
  | leftBrace | rightBrace | leftParen | rightParen | leftBracket | rightBracket
  | dot | ellipsis | semicolon | comma | colon | question | questionDot | arrow | atSign
  | less | lessEqual | greater | greaterEqual | equal | notEqual | strictEqual | strictNotEqual
  | plus | minus | star | slash | percent | starStar | increment | decrement
  | shiftLeft | shiftRight | unsignedShiftRight | ampersand | bar | caret | bang | tilde
  | logicalAnd | logicalOr | coalesce
  | assign | plusAssign | minusAssign | starAssign | slashAssign | percentAssign | starStarAssign
  | shiftLeftAssign | shiftRightAssign | unsignedShiftRightAssign | ampersandAssign | barAssign
  | caretAssign | logicalAndAssign | logicalOrAssign | coalesceAssign
  deriving DecidableEq, Repr

namespace Punctuator

def isAssignment : Punctuator → Bool
  | assign | plusAssign | minusAssign | starAssign | slashAssign | percentAssign | starStarAssign
  | shiftLeftAssign | shiftRightAssign | unsignedShiftRightAssign | ampersandAssign | barAssign
  | caretAssign | logicalAndAssign | logicalOrAssign | coalesceAssign => true
  | _ => false

/-- The operators between two operands that bind looser than `in` and the comparisons. -/
def isLooseBinary : Punctuator → Bool
  | equal | notEqual | strictEqual | strictNotEqual | ampersand | bar | caret | logicalAnd
  | logicalOr | coalesce => true
  | _ => false

/-- The operators that may leave their right operand out of account. -/
def isLogical : Punctuator → Bool
  | logicalAnd | logicalOr | coalesce => true
  | _ => false

/-- The operators between two operands that bind at least as tightly as `in`. -/
def isTightBinary : Punctuator → Bool
  | less | lessEqual | greater | greaterEqual | plus | minus | star | slash | percent | starStar
  | shiftLeft | shiftRight | unsignedShiftRight => true
  | _ => false

/-- The operators in front of an operand that keep its value apart from assignment. -/
def isUnary : Punctuator → Bool
  | plus | minus | tilde | bang => true
  | _ => false

def afterGreater : List Char → Punctuator × List Char
  | '>' :: '>' :: '=' :: r => (unsignedShiftRightAssign, r)
  | '>' :: '>' :: r => (unsignedShiftRight, r)
  | '>' :: '=' :: r => (shiftRightAssign, r)
  | '>' :: r => (shiftRight, r)
  | '=' :: r => (greaterEqual, r)
  | r => (greater, r)

def afterLess : List Char → Punctuator × List Char
  | '<' :: '=' :: r => (shiftLeftAssign, r)
  | '<' :: r => (shiftLeft, r)
  | '=' :: r => (lessEqual, r)
  | r => (less, r)

def afterEquals : List Char → Punctuator × List Char
  | '=' :: '=' :: r => (strictEqual, r)
  | '=' :: r => (equal, r)
  | '>' :: r => (arrow, r)
  | r => (assign, r)

def afterBang : List Char → Punctuator × List Char
  | '=' :: '=' :: r => (strictNotEqual, r)
  | '=' :: r => (notEqual, r)
  | r => (bang, r)

def afterStar : List Char → Punctuator × List Char
  | '*' :: '=' :: r => (starStarAssign, r)
  | '*' :: r => (starStar, r)
  | '=' :: r => (starAssign, r)
  | r => (star, r)

/-- Reads what follows `?`. A digit after `?.` makes it a conditional with a number. -/
def afterQuestion : List Char → Punctuator × List Char
  | '?' :: '=' :: r => (coalesceAssign, r)
  | '?' :: r => (coalesce, r)
  | '.' :: c :: r => if c.isDigit then (question, '.' :: c :: r) else (questionDot, c :: r)
  | ['.'] => (questionDot, [])
  | r => (question, r)

def afterAmpersand : List Char → Punctuator × List Char
  | '&' :: '=' :: r => (logicalAndAssign, r)
  | '&' :: r => (logicalAnd, r)
  | '=' :: r => (ampersandAssign, r)
  | r => (ampersand, r)

def afterBar : List Char → Punctuator × List Char
  | '|' :: '=' :: r => (logicalOrAssign, r)
  | '|' :: r => (logicalOr, r)
  | '=' :: r => (barAssign, r)
  | r => (bar, r)

/-- Reads what follows an operator that may be doubled or combined with an assignment. -/
def afterSign (sign : Char) (single double combined : Punctuator) :
    List Char → Punctuator × List Char
  | c :: r => if c == sign then (double, r) else if c == '=' then (combined, r) else (single, c :: r)
  | [] => (single, [])

/-- Reads what follows an operator that may be combined with an assignment. -/
def afterOperator (single combined : Punctuator) : List Char → Punctuator × List Char
  | '=' :: r => (combined, r)
  | r => (single, r)

def afterDot : List Char → Punctuator × List Char
  | '.' :: '.' :: r => (ellipsis, r)
  | r => (dot, r)

/-- The longest punctuator at the start of the text, with what follows it. -/
def read? : List Char → Option (Punctuator × List Char)
  | '{' :: r => some (leftBrace, r)
  | '}' :: r => some (rightBrace, r)
  | '(' :: r => some (leftParen, r)
  | ')' :: r => some (rightParen, r)
  | '[' :: r => some (leftBracket, r)
  | ']' :: r => some (rightBracket, r)
  | ';' :: r => some (semicolon, r)
  | ',' :: r => some (comma, r)
  | ':' :: r => some (colon, r)
  | '~' :: r => some (tilde, r)
  | '@' :: r => some (atSign, r)
  | '.' :: r => some (afterDot r)
  | '<' :: r => some (afterLess r)
  | '>' :: r => some (afterGreater r)
  | '=' :: r => some (afterEquals r)
  | '!' :: r => some (afterBang r)
  | '*' :: r => some (afterStar r)
  | '?' :: r => some (afterQuestion r)
  | '&' :: r => some (afterAmpersand r)
  | '|' :: r => some (afterBar r)
  | '+' :: r => some (afterSign '+' plus increment plusAssign r)
  | '-' :: r => some (afterSign '-' minus decrement minusAssign r)
  | '/' :: r => some (afterOperator slash slashAssign r)
  | '%' :: r => some (afterOperator percent percentAssign r)
  | '^' :: r => some (afterOperator caret caretAssign r)
  | _ => none

end Punctuator

end EsmCompletion.Script
