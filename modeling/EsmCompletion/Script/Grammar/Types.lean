import EsmCompletion.Script.Grammar.Binding
import EsmCompletion.Script.Grammar.Template

/-!
Types, as far as exported declarations of types and the heritage of classes hold them. Nothing in them
is annotated with a type of its own: a colon behind a member or a parameter has no meaning here.
-/

namespace EsmCompletion.Script

namespace Punctuator

/-- What is left of a punctuator that starts with `>` when that character is taken from it. -/
def behindAngle? : Punctuator → Option (List Char)
  | greater => some []
  | greaterEqual => some ['=']
  | shiftRight => some ['>']
  | shiftRightAssign => some ['>', '=']
  | unsignedShiftRight => some ['>', '>']
  | unsignedShiftRightAssign => some ['>', '>', '=']
  | _ => none

end Punctuator

namespace Grammar

open Reader

def anyWord : Reader Unit := do
  guard (← token).isWord
  skip

/-- Words with dots between them, from the first word on. -/
def qualifiedNameFrom : Nat → Reader Unit
  | 0 => failure
  | bound + 1 => do
    anyWord
    if ← eat .dot then qualifiedNameFrom bound

/-- Steps over `>`, which may be the beginning of a longer punctuator. -/
def closeAngle : Reader Unit := do
  match ← token with
  | .punctuator p =>
    match p.behindAngle? with
    | some cs => resumeAt (cs ++ (← get).rest)
    | none => failure
  | _ => failure

/-- Types with commas between them up to `>`, which is read too. -/
def typesUntilAngle (rules : Rules) : Nat → Reader Unit
  | 0 => failure
  | bound + 1 => do
    if (match ← token with | .punctuator p => p.behindAngle?.isSome | _ => false) then closeAngle
    else
      rules.typeTerm true
      if ← eat .comma then typesUntilAngle rules bound else closeAngle

def typeArguments (rules : Rules) : Reader Unit := do
  if ← eat .less then typesUntilAngle rules rules.bound

def typeReference (rules : Rules) : Reader Unit := do
  qualifiedNameFrom rules.bound
  unless (← get).afterNewline do typeArguments rules

/-- The end of a member of an object type. -/
def endMember : Reader Unit := do
  unless ← eat .comma do semicolon

/-- Whether a member's name follows, so that the word at hand stands for an accessor or a modifier. -/
def namesMember : Reader Bool := do return (← following).token.startsPropertyName

def typeMember (rules : Rules) : Reader Unit := do
  let next := (← following).token
  if ← isAt .leftParen then discard (parameters rules)
  else if (← isAtKeyword .new_) && next.isPunctuator .leftParen then
    advance
    discard (parameters rules)
  else
    if (← isAtKeyword .get_) || (← isAtKeyword .set_) || (← isAtKeyword .readonly_) then
      if ← namesMember then advance
    discard (propertyName rules)
    discard (eat .question)
    if ← isAt .leftParen then discard (parameters rules)
  endMember

/-- The members of an object type or an interface, with their braces. -/
def typeMembers (rules : Rules) : Reader Unit := do
  expect .leftBrace
  discard (rules.itemsUntil .rightBrace (typeMember rules))

/-- Whether the text behind a brace starts a mapped type: a name and `in` in brackets. -/
def startsMapping (behindBrace : List Char) : Bool :=
  let first := Lexeme.next behindBrace
  let text :=
    if first.token.isPunctuator .plus || first.token.isPunctuator .minus then
      (Lexeme.next first.rest).rest
    else if first.token.isKeyword .readonly_ then first.rest
    else behindBrace
  let bracket := Lexeme.next text
  let name := Lexeme.next bracket.rest
  bracket.token.isPunctuator .leftBracket && name.token.canName &&
    (Lexeme.next name.rest).token.isKeyword .in_

/-- A sign and the given modifier, if it is there. -/
def mappingModifier (modifier : Reader Bool) : Reader Unit := do
  let added ← eat .plus
  let removed ← if added then pure false else eat .minus
  let isThere ← modifier
  guard (isThere || !(added || removed))

def mappedType (rules : Rules) : Reader Unit := do
  expect .leftBrace
  mappingModifier (eatKeyword .readonly_)
  expect .leftBracket
  discard bindingName
  expectKeyword .in_
  rules.typeTerm true
  if ← eatKeyword .as_ then rules.typeTerm true
  expect .rightBracket
  mappingModifier (eat .question)
  if ← eat .colon then rules.typeTerm true
  discard (eat .semicolon)
  expect .rightBrace

/-- An element of a tuple type, which may be named. -/
def tupleElement (rules : Rules) : Reader Unit := do
  discard (eat .ellipsis)
  let next ← following
  let isNamed := (← token).isWord &&
    (next.token.isPunctuator .colon ||
      (next.token.isPunctuator .question && (Lexeme.next next.rest).token.isPunctuator .colon))
  if isNamed then
    skip
    discard (eat .question)
    expect .colon
    rules.typeTerm true
  else
    rules.typeTerm true
    discard (eat .question)

def importedType (rules : Rules) : Reader Unit := do
  expectKeyword .import_
  expect .leftParen
  rules.typeTerm true
  if ← eat .comma then
    unless ← isAt .rightParen do
      discard rules.assignment
      discard (eat .comma)
  expect .rightParen
  if ← eat .dot then qualifiedNameFrom rules.bound
  typeArguments rules

/-- A type without anything behind it. -/
def plainType (rules : Rules) : Reader Unit := do
  match ← token with
  | .word _ keyword _ =>
    if keyword == some .typeof_ then
      advance
      if ← isAtKeyword .import_ then importedType rules else typeReference rules
    else if keyword == some .import_ then importedType rules
    else typeReference rules
  | .number | .string _ => skip
  | .template _ => template rules (rules.typeTerm true) false
  | .punctuator .minus =>
    advance
    guard ((← token) == .number)
    skip
  | .punctuator .leftBrace =>
    if startsMapping (← get).rest then mappedType rules else typeMembers rules
  | .punctuator .leftBracket =>
    advance
    discard (rules.commaSeparated .rightBracket (tupleElement rules))
  | .punctuator .leftParen =>
    advance
    rules.typeTerm true
    expect .rightParen
  | _ => failure

/-- The brackets behind a type, of arrays and of looked-up members. -/
def typeSuffixes (rules : Rules) : Nat → Reader Unit
  | 0 => failure
  | bound + 1 => do
    if (← isAt .leftBracket) && !(← get).afterNewline then
      advance
      unless ← eat .rightBracket do
        rules.typeTerm true
        expect .rightBracket
      typeSuffixes rules bound

/-- A type with the operators in front of it. -/
def operatorType (rules : Rules) : Nat → Reader Unit
  | 0 => failure
  | bound + 1 => do
    let next ← following
    let goesOn := !next.afterNewline && (next.token.isWord || next.token.isLiteral ||
      next.token.isPunctuator .leftBrace || next.token.isPunctuator .leftBracket ||
      next.token.isPunctuator .leftParen)
    if goesOn && ((← isAtKeyword .keyof_) || (← isAtKeyword .unique_) ||
        (← isAtKeyword .readonly_)) then
      advance
      operatorType rules bound
    else if (← isAtKeyword .infer_) && next.token.canName then
      advance
      discard bindingName
    else
      plainType rules
      typeSuffixes rules rules.bound

/-- One or more types with the given operator between them, and perhaps in front. -/
def joinedTypes (operator : Punctuator) (item : Reader Unit) : Nat → Reader Unit
  | 0 => failure
  | bound + 1 => do
    item
    if ← eat operator then joinedTypes operator item bound

def unionType (rules : Rules) : Reader Unit := do
  let intersection : Reader Unit := do
    discard (eat .ampersand)
    joinedTypes .ampersand (operatorType rules rules.bound) rules.bound
  discard (eat .bar)
  joinedTypes .bar intersection rules.bound

/-- Whether the text behind a parenthesis starts the parameters of a function type. -/
def startsTypeParameters (behindParen : List Char) : Bool :=
  let first := Lexeme.next behindParen
  let second := Lexeme.next first.rest
  if first.token.isPunctuator .rightParen || first.token.isPunctuator .ellipsis then true
  else if first.token.canName then
    second.token.isPunctuator .comma || second.token.isPunctuator .assign ||
      (second.token.isPunctuator .rightParen &&
        (Lexeme.next second.rest).token.isPunctuator .arrow)
  else false

/-- A type. Only a type that may be conditional asks what it extends. -/
def typeTerm (rules : Rules) (conditional : Bool) : Reader Unit := do
  let constructs ← isAtKeyword .new_
  let parenthesized ← isAt .leftParen
  if constructs || (parenthesized && startsTypeParameters (← get).rest) then
    discard (eatKeyword .new_)
    discard (parameters rules)
    expect .arrow
    rules.typeTerm true
  else
    unionType rules
    if conditional && (← isAtKeyword .extends_) && !(← get).afterNewline then
      advance
      rules.typeTerm false
      expect .question
      rules.typeTerm true
      expect .colon
      rules.typeTerm true

end Grammar

end EsmCompletion.Script
