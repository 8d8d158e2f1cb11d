import EsmCompletion.Script.Grammar.Rules

/-!
Declared names, patterns and parameters.
-/

namespace EsmCompletion.Script.Grammar

open Reader

inductive PropertyName where
  | text (text : String)
  | number
  | computed
  | privateName (name : String)
  deriving DecidableEq, Repr

/-- Reads the name of a property. It is not private. -/
def propertyName (rules : Rules) : Reader PropertyName := do
  match ← token with
  | .word name _ _ =>
    skip
    return .text name
  | .string value =>
    skip
    return .text value
  | .number =>
    skip
    return .number
  | .punctuator .leftBracket =>
    skip
    discard (allowingIn rules.assignment)
    expect .rightBracket
    return .computed
  | _ => failure

/-- Counts a flaw if the token is a word that the setting reserves. -/
def checkName (s : Setting) (t : Token) : Reader Unit :=
  flawUnless !((s.awaits && t.isKeyword .await_) || (s.yields && t.isKeyword .yield_))

/-- Reads a name: of a variable, a function or a parameter. -/
def bindingName : Reader String := do
  match ← token with
  | .word name keyword escaped =>
    guard (keyword.all Keyword.canName)
    checkName (← setting) (.word name keyword escaped)
    skip
    return name
  | _ => failure

/-- Reads a default, if there is one, and tells whether there was. -/
def initializer (rules : Rules) : Reader Bool := do
  if ← eat .assign then
    discard (allowingIn rules.assignment)
    return true
  else return false

/-- Behind a rest element neither a comma nor another element may stand. -/
def endRest : Reader Unit := do flawUnless !(← isAt .comma)

/-- A property of an object pattern: the names it binds. A rest property is a plain name without a
default. -/
def objectPatternProperty (rules : Rules) : Reader (List String) := do
  if ← eat .ellipsis then
    let binding ← rules.binding
    let defaulted ← initializer rules
    flawUnless (!defaulted && !binding.isDestructuring)
    endRest
    return binding.boundNames
  else
    let isName := (← token).canName
    let key ← propertyName rules
    let isColon ← isAt .colon
    match key, isName && !isColon with
    | .text name, true =>
      discard (initializer rules)
      return [name]
    | _, _ =>
      expect .colon
      let binding ← rules.binding
      discard (initializer rules)
      return binding.boundNames

/-- An element of an array pattern: the names it binds, none where an element is left out. -/
def arrayPatternElement (rules : Rules) : Reader (List String) := do
  if ← isAt .comma then return []
  else
    let isRest ← eat .ellipsis
    let binding ← rules.binding
    discard (initializer rules)
    if isRest then endRest
    return binding.boundNames

def binding (rules : Rules) : Reader Binding := do
  if ← eat .leftBrace then
    let list ← rules.commaSeparated .rightBrace (objectPatternProperty rules)
    return .destructuring list.items.flatten
  else if ← eat .leftBracket then
    let list ← rules.commaSeparated .rightBracket (arrayPatternElement rules)
    return .destructuring list.items.flatten
  else return .name (← bindingName)

def decoratorsFrom (rules : Rules) : Nat → Reader Unit
  | 0 => failure
  | bound + 1 => do
    if ← eat .atSign then
      discard (within (fun s => { s with inDecorator := true }) rules.leftHand)
      decoratorsFrom rules bound

def decorators (rules : Rules) : Reader Unit := decoratorsFrom rules rules.bound

def parameter (rules : Rules) : Reader Parameter := do
  if ← eat .ellipsis then
    let target ← binding rules
    discard (initializer rules)
    endRest
    return .rest target
  else
    decorators rules
    let target ← binding rules
    if ← initializer rules then return .defaulted target else return .required target

def parameters (rules : Rules) : Reader (List Parameter) := do
  expect .leftParen
  return (← rules.commaSeparated .rightParen (parameter rules)).items

end EsmCompletion.Script.Grammar
