import EsmCompletion.Script.Grammar.Binding

/-!
Functions, methods and arrow functions.
-/

namespace EsmCompletion.Script.Grammar

open Reader

def functionBody (rules : Rules) : Reader Unit := do
  expect .leftBrace
  discard (within (fun s => { s with inFunction := true })
    (rules.itemsUntil .rightBrace (rules.statement false)))

def functionRest (rules : Rules) (isAsync isGenerator : Bool) : Reader (List Parameter) := do
  let outer ← setting
  change fun s => { s with allowsIn := true, awaits := isAsync, yields := isGenerator }
  let list ← parameters rules
  functionBody rules
  change fun s =>
    { s with allowsIn := outer.allowsIn, awaits := outer.awaits, yields := outer.yields }
  return list

structure FunctionParts where
  name : Option String
  parameters : List Parameter
  /-- Whether it is neither asynchronous nor a generator. -/
  plain : Bool

/-- A function, from `async` or `function` on. The name of a function that is an operand belongs to
itself: inside a generator, say, a plain function may be called `yield`. -/
def function (rules : Rules) (isOperand : Bool) : Reader FunctionParts := do
  let isAsync ← eatKeyword .async_
  expectKeyword .function_
  let isGenerator ← eat .star
  let first ← token
  let name ← match first with
    | .word name _ _ =>
      guard first.canName
      let s ← setting
      checkName (if isOperand then { s with awaits := isAsync, yields := isGenerator } else s) first
      skip
      pure (some name)
    | _ => pure none
  let list ← functionRest rules isAsync isGenerator
  return ⟨name, list, !isAsync && !isGenerator⟩

/-- Whether a function starts here, with `function` or, on the same line, `async`. -/
def atFunction : Reader Bool := do
  let next ← following
  return (← isAtKeyword .function_) ||
    ((← isAtKeyword .async_) && next.token.isKeyword .function_ && !next.afterNewline)

/-- How sure it is that parameters of an arrow function follow. -/
inductive Prospect where
  | absent | possible | sure
  deriving DecidableEq, Repr

/-- Judges by the first words behind a parenthesis whether parameters of an arrow function may
follow. -/
def Prospect.behindParen (cs : List Char) : Prospect :=
  let first := Lexeme.next cs
  let second := (Lexeme.next first.rest).token
  match first.token with
  | .punctuator .rightParen =>
    if second.isPunctuator .arrow || second.isPunctuator .leftBrace then sure else absent
  | .punctuator .leftBrace | .punctuator .leftBracket => possible
  | .punctuator .ellipsis =>
    if second.isPlainName then sure else if second.isLiteral then absent else possible
  | t =>
    if (t.canName || t.isKeyword .this_) &&
        (second.isPunctuator .comma || second.isPunctuator .assign ||
          second.isPunctuator .rightParen)
    then possible
    else absent

/-- The same from the first token of the arrow function on. Type parameters behind `async` are given
a try, in vain. -/
def Prospect.here : Reader Prospect := do
  let place ← get
  let next := Lexeme.next place.rest
  if place.token.isPunctuator .leftParen then return behindParen place.rest
  else if place.token.isKeyword .async_ && !next.afterNewline then
    if next.token.isPunctuator .leftParen then return behindParen next.rest
    else if next.token.isPunctuator .less then
      let third := (Lexeme.next next.rest).token
      return if third.canName || third.isKeyword .const_ then possible else absent
    else return absent
  else return absent

/-- The parameters of an arrow function, with the arrow on the line where they end. `await` is
reserved in those of an asynchronous one, and where they turn out to be something else it stays so. -/
def arrowHead (rules : Rules) : Reader (Bool × List Parameter) := do
  let isAsync ← eatKeyword .async_
  let outer ← setting
  change fun s => { s with awaits := s.awaits || isAsync }
  let list ← parameters rules
  change fun s => { s with awaits := outer.awaits }
  flawUnless !(← get).afterNewline
  expect .arrow
  return (isAsync, list)

def arrowBody (rules : Rules) (isAsync : Bool) : Reader Unit := do
  let outer ← setting
  change fun s => { s with awaits := isAsync, yields := false }
  if ← isAt .leftBrace then functionBody rules else discard rules.assignment
  change fun s => { s with awaits := outer.awaits, yields := outer.yields }

/-- An arrow function with parenthesized parameters, if there is one here. A place where none was
found is not tried again, which keeps nested trials from multiplying. -/
def parenthesizedArrow? (rules : Rules) : Reader (Option Expression) := do
  let finish (head : Bool × List Parameter) : Reader (Option Expression) := do
    arrowBody rules head.1
    return some (.arrow head.2)
  match ← Prospect.here with
  | .absent => return none
  | .sure => finish (← arrowHead rules)
  | .possible =>
    let index := (← get).index
    if (← get).noParameters.contains index then return none
    else match ← attempt (arrowHead rules) with
      | some head => finish head
      | none =>
        modify fun place => { place with noParameters := index :: place.noParameters }
        return none

/-- An arrow function with a single parameter without parentheses, from the arrow on. -/
def simpleArrow (rules : Rules) (name : String) (isAsync : Bool) : Reader Expression := do
  flawUnless !(← get).afterNewline
  expect .arrow
  arrowBody rules isAsync
  return .arrow [.required (.name name)]

/-- An asynchronous arrow function with a single parameter without parentheses, if there is one
here. -/
def asyncSimpleArrow? (rules : Rules) : Reader (Option Expression) := do
  let next ← following
  if (← isAtKeyword .async_) && !next.afterNewline && next.token.canName &&
      (Lexeme.next next.rest).token.isPunctuator .arrow then
    advance
    let name ← bindingName
    return some (← simpleArrow rules name true)
  else return none

end EsmCompletion.Script.Grammar
