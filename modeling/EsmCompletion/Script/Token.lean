import EsmCompletion.Script.Keyword
import EsmCompletion.Script.Name
import EsmCompletion.Script.NumericLiteral
import EsmCompletion.Script.Punctuator
import EsmCompletion.Script.StringLiteral
import EsmCompletion.Script.TemplateChunk

/-!
The tokens of JavaScript source text. A slash is read as an operator and a closing brace as a
punctuator; where the grammar wants a regular expression or the continuation of a template, the text
after the token is read again.
-/

namespace EsmCompletion.Script

/-- A token. Names carry the keyword with their spelling, if there is one, and whether they were
written with an escape, which a word in the role of a keyword must not be. -/
inductive Token where
  | word (name : String) (keyword : Option Keyword) (escaped : Bool)
  | privateName (name : String)
  | punctuator (p : Punctuator)
  | number
  | string (value : String)
  | template (chunk : TemplateChunk)
  | endOfInput
  /-- Text that no token starts with. -/
  | invalid
  deriving DecidableEq, Repr

/-- What a skipped stretch of text is made of. -/
inductive Skipping where
  | blanks | lineComment | blockComment

/-- Skips white space and comments. The answer tells whether a line ended in between; it is `none`
for a comment that does not end. -/
def skipFrom : Skipping → Bool → List Char → Option (Bool × List Char)
  | .blanks, newline, '/' :: '/' :: r => skipFrom .lineComment newline r
  | .blanks, newline, '/' :: '*' :: r => skipFrom .blockComment newline r
  | .blanks, newline, c :: r =>
    if isLineTerminator c then skipFrom .blanks true r
    else if isBlank c then skipFrom .blanks newline r
    else some (newline, c :: r)
  | .lineComment, newline, c :: r =>
    if isLineTerminator c then skipFrom .blanks true r else skipFrom .lineComment newline r
  | .blockComment, newline, '*' :: '/' :: r => skipFrom .blanks newline r
  | .blockComment, newline, c :: r => skipFrom .blockComment (newline || isLineTerminator c) r
  | .blockComment, _, [] => none
  | _, newline, [] => some (newline, [])

namespace Token

def ofName (name : List Char × Bool × List Char) : Token × List Char :=
  (.word (String.ofList name.1) (Keyword.ofChars? name.1) name.2.1, name.2.2)

/-- A result of a reader, or the invalid token if it failed. -/
def orInvalid (token? : Option (Token × List Char)) : Token × List Char :=
  token?.getD (.invalid, [])

/-- Reads the token at the start of a text that starts neither with white space nor with a
comment. -/
def read : List Char → Token × List Char
  | [] => (.endOfInput, [])
  | c :: r =>
    if isNameStart c || c == '\\' then orInvalid ((readName? (c :: r)).map ofName)
    else if c.isDigit then orInvalid ((NumericLiteral.read? (c :: r)).map (.number, ·))
    else if c == '"' || c == '\'' then
      orInvalid ((StringLiteral.read? c r).map fun result => (.string result.1, result.2))
    else if c == '\x60' then
      orInvalid ((TemplateChunk.read? r).map fun result => (.template result.1, result.2))
    else if c == '#' then
      orInvalid ((readName? r).map fun result =>
        (.privateName (String.ofList result.1), result.2.2))
    else if c == '.' && r.head?.any Char.isDigit then
      orInvalid ((NumericLiteral.read? (c :: r)).map (.number, ·))
    else orInvalid ((Punctuator.read? (c :: r)).map fun result => (.punctuator result.1, result.2))

end Token

/-- A token in its place: whether a line ended before it, and the text after it. -/
structure Lexeme where
  token : Token
  afterNewline : Bool
  rest : List Char
  deriving Repr

/-- The next token of the text. -/
def Lexeme.next (cs : List Char) : Lexeme :=
  match skipFrom .blanks false cs with
  | some (newline, text) =>
    let result := Token.read text
    ⟨result.1, newline, result.2⟩
  | none => ⟨.invalid, false, []⟩

end EsmCompletion.Script
