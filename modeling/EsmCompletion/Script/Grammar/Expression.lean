import EsmCompletion.Script.Grammar.Class
import EsmCompletion.Script.RegularExpression

/-!
Expressions. They are read for their extent; of their structure only what decides whether they can
be assigned to, and the parameters of an arrow function, is kept.
-/

namespace EsmCompletion.Script.Grammar

open Reader

/-- A part of an array or object literal, seen as a part of a destructuring pattern. -/
inductive LiteralPart where
  /-- An element left out, or a name that is both property and value. -/
  | plain
  /-- A shorthand property with a default, which no literal but only a pattern can hold, and its
  place. -/
  | shorthandDefault (index : Nat)
  | value (e : Expression)
  | spread (e : Expression)
  | method

/-- The shorthand defaults that the parts claim as a pattern; `none` if they are no pattern, because
one of them cannot be assigned to or because a rest part does not come last. -/
def patternClaims? : List LiteralPart → Option (List Nat)
  | [] => some []
  | [.spread e] => e.targetClaims?
  | .plain :: parts => patternClaims? parts
  | .shorthandDefault index :: parts => (patternClaims? parts).map (index :: ·)
  | .value e :: parts => do return (← e.elementClaims?) ++ (← patternClaims? parts)
  | .spread _ :: _ => none
  | .method :: _ => none

/-- The expression that a literal is. -/
def Expression.ofLiteral (claims? : Option (List Nat)) : Expression :=
  match claims? with
  | some claims => .pattern claims
  | none => .other

def arrayPart (rules : Rules) : Reader LiteralPart := do
  if ← isAt .comma then return .plain
  else if ← eat .ellipsis then return .spread (← rules.assignment)
  else return .value (← rules.assignment)

/-- An array literal. As a pattern it has no comma behind a rest element. -/
def arrayLiteral (rules : Rules) : Reader Expression := do
  expect .leftBracket
  let list ← allowingIn (rules.commaSeparated .rightBracket (arrayPart rules))
  match list.items.getLast? with
  | some (.spread _) =>
    return .ofLiteral (if list.trailingComma then none else patternClaims? list.items)
  | _ => return .ofLiteral (patternClaims? list.items)

/-- A method of an object literal, from its name on. -/
def objectMethod (rules : Rules) (isAsync isGenerator : Bool) : Reader LiteralPart := do
  discard (propertyName rules)
  discard (functionRest rules isAsync isGenerator)
  return .method

/-- A name that is both property and value, perhaps with a default. -/
def shorthandProperty (rules : Rules) : Reader LiteralPart := do
  let index := (← get).index
  discard bindingName
  if ← eat .assign then
    discard rules.assignment
    modify fun place => { place with unclaimed := place.unclaimed.insert index }
    return .shorthandDefault index
  else return .plain

/-- A property without modifiers: with a value, a method, or a shorthand. -/
def objectProperty (rules : Rules) : Reader LiteralPart := do
  let next := (← following).token
  if (← token).canName && !next.isPunctuator .leftParen && !next.isPunctuator .colon then
    shorthandProperty rules
  else
    discard (propertyName rules)
    if ← eat .colon then return .value (← rules.assignment)
    else
      discard (functionRest rules false false)
      return .method

def objectPart (rules : Rules) : Reader LiteralPart := do
  let next ← following
  let beforeName := next.token.startsPropertyName
  if ← eat .ellipsis then return .spread (← rules.assignment)
  else if ← eat .star then objectMethod rules false true
  else if (← isAtKeyword .async_) && (beforeName || next.token.isPunctuator .star) &&
      !next.afterNewline then
    advance
    let isGenerator ← eat .star
    objectMethod rules true isGenerator
  else if ((← isAtKeyword .get_) || (← isAtKeyword .set_)) && beforeName then
    advance
    objectMethod rules false false
  else objectProperty rules

def objectLiteral (rules : Rules) : Reader Expression := do
  expect .leftBrace
  let list ← allowingIn (rules.commaSeparated .rightBrace (objectPart rules))
  return .ofLiteral (patternClaims? list.items)

def argument (rules : Rules) : Reader Unit := do
  discard (eat .ellipsis)
  discard rules.assignment

def arguments (rules : Rules) : Reader Unit := do
  expect .leftParen
  discard (enclosed (rules.commaSeparated .rightParen (argument rules)))

def parenthesized (rules : Rules) : Reader Expression := do
  expect .leftParen
  let list ← enclosed (rules.oneOrMore rules.assignment)
  expect .rightParen
  match list with
  | [inner] => return .parenthesized inner.isSimpleTarget
  | _ => return .parenthesized false

def expressionTemplate (rules : Rules) (tagged : Bool) : Reader Unit :=
  template rules (discard (allowingIn (expression rules))) tagged

/-- A regular expression, from its opening slash on. -/
def regularExpression : Reader Unit := do
  let place ← get
  let text ← match place.token with
    | .punctuator .slash => pure place.rest
    | .punctuator .slashAssign => pure ('=' :: place.rest)
    | _ => failure
  match RegularExpression.read? text with
  | some rest => resumeAt rest
  | none => failure

/-- The one or two arguments of a dynamic import. -/
def importArguments (rules : Rules) : Reader Unit := do
  expect .leftParen
  let outer ← setting
  change fun s => { s with allowsIn := true }
  discard rules.assignment
  if ← eat .comma then
    unless ← isAt .rightParen do discard rules.assignment
  discard (eat .comma)
  change fun s => { s with allowsIn := outer.allowsIn }
  expect .rightParen

/-- `import.meta`, or a dynamic import, perhaps of an early phase. -/
def importExpression (rules : Rules) : Reader Expression := do
  expectKeyword .import_
  if ← eat .dot then
    if ← eatKeyword .meta_ then return .other
    else
      guard ((← isAtKeyword .source_) || (← isAtKeyword .defer_))
      advance
      importArguments rules
      return .importCall
  else
    importArguments rules
    return .importCall

/-- `super`, which is always followed by a property or by arguments. -/
def superReference : Reader Unit := do
  expectKeyword .super_
  flawUnless ((← isAt .dot) || (← isAt .leftBracket) || (← isAt .leftParen))

def memberName : Reader Unit := do
  match ← token with
  | .word .. | .privateName _ => skip
  | _ => failure

def memberIndex (rules : Rules) : Reader Unit := do
  expect .leftBracket
  discard (allowingIn (expression rules))
  expect .rightBracket

/-- A link of a chain of property accesses, and whether the chain is optional so far. -/
structure Chain where
  value : Expression
  optional : Bool

/-- The property accesses and templates behind an operand. `?.` is read here only with a property
behind it. Behind an optional link no template follows. -/
def membersFrom (rules : Rules) : Nat → Chain → Reader Chain
  | 0, _ => failure
  | bound + 1, chain => do
    let inDecorator := (← setting).inDecorator
    match ← token with
    | .punctuator .dot =>
      advance
      memberName
      membersFrom rules bound { chain with value := .property }
    | .punctuator .questionDot =>
      let next := (← following).token
      if next.isPunctuator .leftBracket && !inDecorator then
        advance
        memberIndex rules
        membersFrom rules bound ⟨.property, true⟩
      else match next with
        | .word .. | .privateName _ =>
          advance
          memberName
          membersFrom rules bound ⟨.property, true⟩
        | _ => return { chain with optional := true }
    | .punctuator .leftBracket =>
      if inDecorator then return chain
      else
        memberIndex rules
        membersFrom rules bound { chain with value := .property }
    | .template _ =>
      expressionTemplate rules true
      flawUnless !chain.optional
      membersFrom rules bound { chain with value := .other }
    | _ => return chain

/-- The property accesses, templates and calls behind an operand. `?.` may stand in front of the
arguments of a call, and also where nothing follows that it could belong to. -/
def linksFrom (rules : Rules) : Nat → Chain → Reader Chain
  | 0, _ => failure
  | bound + 1, chain => do
    let chain ← membersFrom rules rules.bound chain
    let questioned ← eat .questionDot
    let optional := chain.optional || questioned
    if ← isAt .leftParen then
      arguments rules
      linksFrom rules bound ⟨.other, optional⟩
    else return { chain with optional }

/-- `new.target`, or `new` with what it constructs and the arguments, which may be left out. -/
def newExpression (rules : Rules) : Reader Unit := do
  expectKeyword .new_
  if ← eat .dot then expectKeyword .target_
  else
    rules.constructed
    if ← isAt .leftParen then
      advance
      discard (allowingIn (rules.commaSeparated .rightParen (argument rules)))

def nameOperand : Reader Expression := do return .name (← bindingName)

/-- An operand that starts with a word. -/
def wordOperand (rules : Rules) (keyword : Option Keyword) : Reader Expression := do
  match keyword with
  | some .this_ | some .null_ | some .true_ | some .false_ =>
    advance
    return .other
  | some .class_ =>
    discard (classRest rules)
    return .other
  | some .new_ =>
    newExpression rules
    return .other
  | some .super_ =>
    superReference
    return .other
  | some .import_ => importExpression rules
  | some .function_ | some .async_ =>
    if ← atFunction then
      discard (function rules true)
      return .other
    else nameOperand
  | _ => nameOperand

/-- An operand: a name, a literal, or anything that brackets or keywords delimit. Decorators may stand
in front of any. -/
def operand (rules : Rules) : Reader Expression := do
  decorators rules
  match ← token with
  | .word _ keyword _ => wordOperand rules keyword
  | .number | .string _ =>
    skip
    return .other
  | .template _ =>
    expressionTemplate rules false
    return .other
  | .punctuator .leftParen => parenthesized rules
  | .punctuator .leftBracket => arrayLiteral rules
  | .punctuator .leftBrace => objectLiteral rules
  | .punctuator .slash | .punctuator .slashAssign =>
    regularExpression
    return .other
  | _ => failure

/-- A call, a property access, or an operand. Nothing can be assigned to an optional chain. -/
def leftHand (rules : Rules) : Reader Expression := do
  let chain ← linksFrom rules rules.bound ⟨← operand rules, false⟩
  return if chain.optional then .other else chain.value

/-- What `new` is applied to: neither a call nor a dynamic import nor an optional chain. -/
def constructed (rules : Rules) : Reader Unit := do
  let chain ← membersFrom rules rules.bound ⟨← operand rules, false⟩
  guard (!chain.optional && chain.value != .importCall)

def isAtUpdate : Reader Bool := do return (← isAt .increment) || (← isAt .decrement)

/-- An operand with `++` or `--` in front of or behind it, or neither. -/
def update (rules : Rules) : Reader Expression := do
  if ← isAtUpdate then
    advance
    guard (← rules.unary).isSimpleTarget
    return .other
  else
    let e ← leftHand rules
    if (← isAtUpdate) && !(← get).afterNewline then
      advance
      guard e.isSimpleTarget
      return .other
    else return e

/-- Whether an operator that stands in front of an operand is at hand, apart from `await`, `++` and
`--`. -/
def isAtUnary : Reader Bool := do
  match ← token with
  | .punctuator p => return p.isUnary
  | .word _ (some k) _ => return k == .delete_ || k == .void_ || k == .typeof_
  | _ => return false

/-- Whether the token is an operator between two operands, other than a logical one. -/
def isArithmetic : Token → Bool
  | .punctuator p => p.isTightBinary || (p.isLooseBinary && !p.isLogical)
  | .word _ (some k) _ => k == .in_ || k == .instanceof_
  | _ => false

/-- Whether the token starts an operand that can belong to nothing but `await` or `yield` in front of
it. -/
def startsArgument (next : Lexeme) : Bool :=
  !next.afterNewline && (next.token.isLiteral || next.token.isWord) && !isArithmetic next.token

/-- Whether `await` is at hand as an operator: where it is reserved, and elsewhere if what follows
cannot be understood otherwise. The parameter of an arrow function is no operator. -/
def isAtAwait : Reader Bool := do
  let next ← following
  return (← isAtKeyword .await_) && !next.token.isPunctuator .arrow &&
    ((← setting).awaits || (startsArgument next && !next.token.isKeyword .of_))

/-- An operand with the operators in front of and behind it. -/
def unary (rules : Rules) : Reader Expression := do
  if ← isAtUnary then
    advance
    discard rules.unary
    return .other
  else if ← isAtAwait then
    flawUnless (← setting).awaits
    advance
    discard (within (fun s => { s with awaits := true }) rules.unary)
    return .other
  else update rules

def isAtBinary : Reader Bool := do
  match ← token with
  | .punctuator p => return p.isLooseBinary || p.isTightBinary
  | .word _ (some .in_) _ => return (← setting).allowsIn
  | .word _ (some .instanceof_) _ => return true
  | _ => return false

/-- An operand between binary operators. A private name is one only in front of `in`. -/
def binaryOperand (rules : Rules) : Reader Expression := do
  match (← setting).allowsIn, ← token with
  | true, .privateName _ =>
    skip
    expectKeyword .in_
    discard (unary rules)
    return .other
  | _, _ => unary rules

/-- The binary operators behind an operand, with their right operands. Precedence decides nothing
here: any mixture of operators is accepted. The operators on types are not. -/
def binaryFrom (rules : Rules) : Nat → Expression → Reader Expression
  | 0, _ => failure
  | bound + 1, e => do
    if ← isAtBinary then
      advance
      discard (binaryOperand rules)
      binaryFrom rules bound .other
    else
      let onTypes := (← isAtKeyword .as_) || (← isAtKeyword .satisfies_)
      guard (!onTypes || (← get).afterNewline)
      return e

def binary (rules : Rules) : Reader Expression := do
  binaryFrom rules rules.bound (← binaryOperand rules)

/-- Whether `yield` stands alone in front of the token. -/
def endsYield : Token → Bool
  | .endOfInput => true
  | .punctuator p =>
    p == .semicolon || p == .rightBrace || p == .rightParen || p == .rightBracket || p == .colon ||
      p == .comma
  | .word _ (some .in_) _ => true
  | _ => false

/-- Whether `yield` is at hand as an operator: in a generator, and elsewhere if what follows cannot be
understood otherwise. -/
def isAtYield : Reader Bool := do
  let next ← following
  return (← isAtKeyword .yield_) && !next.token.isPunctuator .arrow &&
    ((← setting).yields || startsArgument next)

/-- `yield`, with the value it hands out if there is one. -/
def yieldExpression (rules : Rules) : Reader Unit := do
  advance
  let outer ← setting
  flawUnless outer.yields
  unless (← get).afterNewline do
    let delegates ← eat .star
    if delegates || !endsYield (← token) then
      change fun s => { s with yields := true }
      discard rules.assignment
      change fun s => { s with yields := outer.yields }

/-- Takes an expression as the left side of an assignment. It has to be one that can be assigned
to. -/
def claimTarget (e : Expression) : Reader Unit := do
  match e.targetClaims? with
  | some claims =>
    modify fun place => { place with unclaimed := place.unclaimed.filter (!claims.contains ·) }
  | none => failure

/-- What may follow the operand of an assignment or conditional. A name in front of an arrow is the
parameter of an arrow function. -/
def assignmentRest (rules : Rules) (e : Expression) : Reader Expression := do
  match ← token with
  | .punctuator .arrow =>
    match e with
    | .name name => simpleArrow rules name false
    | e => return e
  | .punctuator .question =>
    advance
    discard (allowingIn rules.assignment)
    expect .colon
    discard rules.assignment
    return .other
  | .punctuator p =>
    if p.isAssignment then
      claimTarget e
      advance
      discard rules.assignment
      return .defaultedTarget
    else return e
  | _ => return e

/-- An expression without a comma operator. -/
def assignment (rules : Rules) : Reader Expression := do
  if ← isAtYield then
    yieldExpression rules
    return .other
  else match ← parenthesizedArrow? rules with
    | some e => return e
    | none =>
      match ← asyncSimpleArrow? rules with
      | some e => return e
      | none => assignmentRest rules (← binary rules)

end EsmCompletion.Script.Grammar
