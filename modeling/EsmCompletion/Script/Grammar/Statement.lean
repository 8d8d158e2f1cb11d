import EsmCompletion.Script.Grammar.Variables

/-!
Statements, apart from imports and exports.
-/

namespace EsmCompletion.Script.Grammar

open Reader

def block (rules : Rules) : Reader Unit := do
  expect .leftBrace
  discard (rules.itemsUntil .rightBrace (rules.statement false))

/-- A statement that is the body of another one. -/
def body (rules : Rules) : Reader Unit := discard (rules.statement true)

def condition (rules : Rules) : Reader Unit := do
  expect .leftParen
  discard (expression rules)
  expect .rightParen

def ifRest (rules : Rules) : Reader Unit := do
  condition rules
  body rules
  if ← eatKeyword .else_ then body rules

/-- `do`, behind its keyword. The semicolon after the condition may always be left out. -/
def doRest (rules : Rules) : Reader Unit := do
  body rules
  expectKeyword .while_
  condition rules
  discard (eat .semicolon)

/-- What follows the first semicolon-free part of a counting loop's head. Such a loop does not
await. -/
def countingRest (rules : Rules) (awaits : Bool) : Reader Unit := do
  expect .semicolon
  unless (← isAt .semicolon) || (← isAt .rightParen) do discard (allowingIn (expression rules))
  expect .semicolon
  unless ← isAt .rightParen do discard (allowingIn (expression rules))
  expect .rightParen
  flawUnless !awaits
  body rules

/-- Whether a loop's head goes on with the things to run over. -/
def atIteration : Reader Bool := do return (← isAtKeyword .in_) || (← isAtKeyword .of_)

/-- What follows the variable of a loop over keys or values. A loop that awaits runs over values. -/
def iterationRest (rules : Rules) (awaits : Bool) : Reader Unit := do
  let overKeys ← isAtKeyword .in_
  advance
  discard (if overKeys then expression rules else rules.assignment)
  expect .rightParen
  flawUnless !(awaits && overKeys)
  body rules

/-- Runs a reader with `in` no operator, as at the start of a loop's head. -/
def forbiddingIn {α : Type} (reader : Reader α) : Reader α :=
  within (fun s => { s with allowsIn := false }) reader

/-- A loop whose head starts with a declaration, from its keyword on. A loop over keys or values may
declare without an initializer. -/
def declaringLoop (rules : Rules) (awaits : Bool) (kind : VariableKind) : Reader Unit := do
  advance
  let list ← forbiddingIn (declarators rules)
  if ← atIteration then iterationRest rules awaits
  else
    flawUnless (list.all kind.accepts)
    countingRest rules awaits

/-- A loop whose head starts with a declaration of disposed values. A disposed value is no key. -/
def disposingLoop (rules : Rules) (awaits : Bool) : Reader Unit := do
  discard (disposedValues rules)
  if ← atIteration then
    flawUnless !(← isAtKeyword .in_)
    iterationRest rules awaits
  else countingRest rules awaits

/-- A loop whose head starts with an expression, which a loop over keys or values assigns to. A loop
over values that does not await does not start with `async of`. -/
def expressionLoop (rules : Rules) (awaits : Bool) : Reader Unit := do
  let first ← token
  let isAsyncOf := first.isKeyword .async_ && !first.isEscapedKeyword &&
    (← following).token.isKeyword .of_
  let e ← forbiddingIn (expression rules)
  if ← atIteration then
    claimTarget e
    flawUnless (awaits || !isAsyncOf)
    iterationRest rules awaits
  else countingRest rules awaits

/-- Whether `let` with this token behind it starts a declaration in the head of a loop. -/
def startsLetBinding (t : Token) : Bool :=
  t.isPunctuator .leftBrace || t.isPunctuator .leftBracket || (t.isWord && !t.isKeyword .in_)

def forRest (rules : Rules) : Reader Unit := do
  let awaits ← isAtKeyword .await_
  if awaits then
    flawUnless (← setting).awaits
    advance
  expect .leftParen
  if (← isAt .semicolon) || (← isAt .rightParen) then countingRest rules awaits
  else if ← atDisposableLoop then disposingLoop rules awaits
  else match variableKind? (← token) with
    | some kind =>
      if kind != .lexical || startsLetBinding (← following).token then
        declaringLoop rules awaits kind
      else expressionLoop rules awaits
    | none => expressionLoop rules awaits

/-- `break` or `continue`, behind its keyword, with the label to go to if there is one. -/
def jumpRest : Reader Unit := do
  unless ← atStatementEnd do discard bindingName
  semicolon

def returnRest (rules : Rules) : Reader Unit := do
  unless ← eat .semicolon do
    unless ← atStatementEnd do
      discard (allowingIn (expression rules))
      semicolon
  flawUnless (← setting).inFunction

/-- `throw`, behind its keyword: the thrown value starts on the same line. -/
def throwRest (rules : Rules) : Reader Unit := do
  flawUnless !(← get).afterNewline
  discard (expression rules)
  semicolon

/-- A case of a switch, up to its colon, or one of the statements behind it. -/
def switchItem (rules : Rules) : Reader Unit := do
  if ← eatKeyword .case_ then
    discard (expression rules)
    expect .colon
  else if ← eatKeyword .default_ then expect .colon
  else discard (rules.statement false)

def switchRest (rules : Rules) : Reader Unit := do
  condition rules
  expect .leftBrace
  guard ((← isAt .rightBrace) || (← isAtKeyword .case_) || (← isAtKeyword .default_))
  discard (rules.itemsUntil .rightBrace (switchItem rules))

def tryRest (rules : Rules) : Reader Unit := do
  block rules
  let caught ← eatKeyword .catch_
  if caught then
    if ← eat .leftParen then
      discard (binding rules)
      expect .rightParen
    block rules
  let finished ← eatKeyword .finally_
  if finished then block rules
  flawUnless (caught || finished)

/-- An expression as a statement, or a labelled statement. -/
def expressionStatement (rules : Rules) : Reader Unit := do
  match ← expression rules with
  | .name _ => if ← eat .colon then body rules else semicolon
  | _ => semicolon

/-- Whether `let` with this token behind it is the left operand of an operator. -/
def continuesLetOperand (t : Token) : Bool :=
  isArithmetic t || (match t with | .punctuator p => p.isAssignment | _ => false)

/-- A statement that starts with `let`: a declaration, unless what follows makes it a name. Behind a
property or call of that name nothing needs to end the statement. -/
def letStatement (rules : Rules) (isBody : Bool) : Reader Unit := do
  let next := (← following).token
  if continuesLetOperand next then
    discard rules.assignment
    semicolon
  else if next.isPunctuator .dot || next.isPunctuator .leftParen then discard (expression rules)
  else if (isBody && !next.isPunctuator .leftBracket) || next.isPunctuator .semicolon then
    skip
    semicolon
  else
    flawUnless !isBody
    discard (variableStatement rules .lexical)

/-- A statement that is not an import, an export, a class or a function, by the keyword at hand. -/
def keywordStatement? (rules : Rules) (isBody : Bool) (k : Keyword) : Option (Reader Unit) :=
  match k with
  | .if_ => some do advance; ifRest rules
  | .do_ => some do advance; doRest rules
  | .while_ => some do advance; condition rules; body rules
  | .with_ => some do advance; condition rules; body rules
  | .for_ => some do advance; forRest rules
  | .continue_ | .break_ => some do advance; jumpRest
  | .return_ => some do advance; returnRest rules
  | .throw_ => some do advance; throwRest rules
  | .switch_ => some do advance; switchRest rules
  | .try_ => some do advance; tryRest rules
  | .debugger_ => some do advance; semicolon
  | .var_ => some (discard (variableStatement rules .variable))
  | .const_ => some do
      flawUnless !isBody
      discard (variableStatement rules .constant)
  | _ => none

end EsmCompletion.Script.Grammar
