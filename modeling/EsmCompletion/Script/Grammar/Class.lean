import EsmCompletion.Script.Grammar.Function
import EsmCompletion.Script.Grammar.Types

/-!
Classes.
-/

namespace EsmCompletion.Script.Grammar

open Reader

/-- Whether what a modifier modifies may start with the token. -/
def startsModified (t : Token) : Bool :=
  t.startsPropertyName || t.isPunctuator .leftBrace || t.isPunctuator .star ||
    t.isPunctuator .ellipsis

/-- Whether a declaration that can be exported as default starts with the token. -/
def startsDefault (next : Lexeme) : Bool :=
  let second := Lexeme.next next.rest
  next.token.isKeyword .class_ || next.token.isKeyword .function_ ||
    next.token.isKeyword .interface_ || next.token.isPunctuator .atSign ||
    (next.token.isKeyword .abstract_ && second.token.isKeyword .class_) ||
    (next.token.isKeyword .async_ && second.token.isKeyword .function_ && !second.afterNewline)

/-- Whether something that can be exported starts with the token. -/
def startsExported (next : Lexeme) : Bool :=
  if next.token.isKeyword .default_ then startsDefault (Lexeme.next next.rest)
  else
    let t := if next.token.isKeyword .type_ then (Lexeme.next next.rest).token else next.token
    t.isPunctuator .atSign ||
      (startsModified t && !t.isPunctuator .star && !t.isKeyword .as_ && !t.isPunctuator .leftBrace)

/-- Whether the word `k` is a modifier in front of the given token. One that is not `static`, `export`
or `default` stands on the same line as what it modifies. -/
def modifies (k : Keyword) (next : Lexeme) : Bool :=
  match k with
  | .static_ => startsModified next.token && !next.token.isPunctuator .leftBrace
  | .export_ => startsExported next
  | .default_ => startsDefault next
  | k => k.isModifier && startsModified next.token && !next.afterNewline

/-- The modifiers in front of a class element, behind those that are given. `static` is taken once;
of the others none may be repeated, and there may be one word on accessibility only. -/
def modifiersFrom : Nat → List Keyword → Reader (List Keyword)
  | 0, _ => failure
  | bound + 1, earlier => do
    match ← token with
    | .word _ (some k) _ =>
      if modifies k (← following) && !(k == .static_ && earlier.contains .static_) then
        flawUnless !(earlier.contains k || (k.isAccessibility && earlier.any Keyword.isAccessibility))
        advance
        modifiersFrom bound (k :: earlier)
      else return earlier
    | _ => return earlier

def elementName (rules : Rules) : Reader PropertyName := do
  match ← token with
  | .privateName name =>
    skip
    flawUnless (name != "constructor")
    return .privateName name
  | _ => propertyName rules

/-- What is known of a class element before its name is read. -/
structure ElementHead where
  isStatic : Bool
  isAsync : Bool
  isGenerator : Bool
  /-- Whether it gets or sets a value. -/
  isAccess : Bool
  /-- The name, if one of the words in front turned out to be it. -/
  name? : Option PropertyName

/-- Reads the word `k` in front of a class element: steps over it if it marks what follows, or takes
it for the element's name. The answer tells whether it is a mark, and what it names otherwise. -/
def markOrName (rules : Rules) (k : Keyword) (sameLine : Bool) :
    Reader (Bool × Option PropertyName) := do
  let next ← following
  if !(← isAtKeyword k) then return (false, none)
  else if (next.token.startsPropertyName || next.token.isPunctuator .star) &&
      !(sameLine && next.afterNewline) then
    advance
    return (true, none)
  else return (false, some (← elementName rules))

/-- What stands in front of a class element's name, behind the modifiers. -/
def elementHead (rules : Rules) (modifiers : List Keyword) : Reader ElementHead := do
  let (marksStatic, staticName?) ← markOrName rules .static_ false
  let optional := (← following).token.isPunctuator .question
  let (marksAsync, asyncName?) ←
    if staticName?.isSome || optional then pure (false, none) else markOrName rules .async_ true
  let early? := staticName?.or asyncName?
  let isAsync := marksAsync || modifiers.contains .async_
  let isGenerator ← if early?.isSome then pure false else eat .star
  let atAccess := (← isAtKeyword .get_) || (← isAtKeyword .set_)
  let isAccess := early?.isNone && !isAsync && !isGenerator && atAccess &&
    (← following).token.startsPropertyName
  if isAccess then advance
  return {
    isStatic := marksStatic || modifiers.contains .static_
    isAsync, isGenerator, isAccess, name? := early? }

/-- A method, behind its name. A constructor is neither asynchronous nor a generator and gets or sets
nothing; nothing static is called `prototype`. -/
def methodRest (rules : Rules) (head : ElementHead) (name : PropertyName) : Reader Unit := do
  discard (functionRest rules head.isAsync head.isGenerator)
  let special := head.isAsync || head.isGenerator || head.isAccess
  flawUnless (head.isStatic || !special || name != .text "constructor")
  flawUnless (!head.isStatic || name != .text "prototype")

/-- A field, behind its name. No field is called `constructor`, and no static one `prototype`. -/
def fieldRest (rules : Rules) (head : ElementHead) (name : PropertyName) : Reader Unit := do
  guard !head.isAccess
  if ← eat .assign then discard (expression rules)
  semicolon
  flawUnless (name != .text "constructor")
  flawUnless (!head.isStatic || name != .text "prototype")

/-- A field with an accessor, behind its name. Nothing needs to separate it from what follows. -/
def accessorRest (rules : Rules) : Reader Unit := do
  if ← eat .assign then discard rules.assignment

def classMember (rules : Rules) (modifiers : List Keyword) : Reader Unit := do
  let head ← elementHead rules modifiers
  flawUnless !(modifiers.contains .const_)
  let name ← match head.name? with
    | some name => pure name
    | none => elementName rules
  let isOptional ← eat .question
  let isDefinite ← eat .bang
  flawUnless !(isOptional && isDefinite)
  if modifiers.contains .accessor_ then
    flawUnless !isOptional
    accessorRest rules
  else if (← isAt .leftParen) || head.isAsync || head.isGenerator then methodRest rules head name
  else fieldRest rules head name

/-- A static initialization block, from its brace on. -/
def staticBlock (rules : Rules) : Reader Unit := do
  expect .leftBrace
  discard (within (fun s => { s with awaits := true, yields := false, inFunction := false })
    (rules.itemsUntil .rightBrace (rules.statement false)))

def classElement (rules : Rules) : Reader Unit := do
  unless ← eat .semicolon do
    decorators rules
    let modifiers ← modifiersFrom rules.bound []
    if (← isAtKeyword .static_) && (← following).token.isPunctuator .leftBrace then
      advance
      staticBlock rules
    else classMember rules modifiers

/-- What a class extends, with type arguments. Only the first of several counts. -/
def extended (rules : Rules) : Reader Unit := do
  discard rules.leftHand
  typeArguments rules

/-- What stands in front of the body of a class or interface: what it extends, then what it
implements. -/
def heritage (rules : Rules) : Reader Unit := do
  if ← eatKeyword .extends_ then discard (rules.oneOrMore (extended rules))
  if ← eatKeyword .implements_ then
    discard (rules.oneOrMore do
      qualifiedNameFrom rules.bound
      typeArguments rules)

/-- A class, from the keyword on, and its name. -/
def classRest (rules : Rules) : Reader (Option String) := do
  expectKeyword .class_
  let first ← token
  let name ←
    if first.canName && !first.isKeyword .implements_ then some <$> bindingName else pure none
  heritage rules
  expect .leftBrace
  discard (rules.itemsUntil .rightBrace (classElement rules))
  return name

end EsmCompletion.Script.Grammar
