import EsmCompletion.Script.Grammar.Statement

/-!
Imports, exports, and statements as a whole.
-/

namespace EsmCompletion.Script.Grammar

open Reader

structure ModuleName where
  text : String
  keyword : Option Keyword
  quoted : Bool

/-- A name in an import or export list: any word, or a string whose surrogates are all paired. -/
def moduleName : Reader ModuleName := do
  match ← token with
  | .word name keyword _ =>
    skip
    return ⟨name, keyword, false⟩
  | .string value =>
    skip
    flawUnless (StringLiteral.isWellFormed value.toList)
    return ⟨value, none, true⟩
  | _ => failure

def string : Reader Unit := do
  match ← token with
  | .string _ => skip
  | _ => failure

def importAttribute : Reader String := do
  let key ← match ← token with
    | .word name _ _ => pure name
    | .string value => pure value
    | _ => failure
  skip
  expect .colon
  string
  return key

/-- The attributes behind the module that is imported from, if there are any. No key is given twice.
The older keyword `assert` has to stand on the same line. -/
def importAttributes (rules : Rules) : Reader Unit := do
  let place ← get
  if place.token.isKeyword .with_ || (place.token.isKeyword .assert_ && !place.afterNewline) then
    skip
    expect .leftBrace
    let keys := (← rules.commaSeparated .rightBrace importAttribute).items
    flawUnless keys.Nodup

/-- The module that is imported from, with its attributes, and the end of the statement. -/
def moduleRest (rules : Rules) : Reader Unit := do
  string
  importAttributes rules
  semicolon

def importSpecifier : Reader Unit := do
  if (← following).token.isKeyword .as_ then
    discard moduleName
    advance
  discard bindingName

/-- An import list with its braces. Nothing is reserved in it but what is reserved everywhere. -/
def importList (rules : Rules) : Reader Unit := do
  expect .leftBrace
  discard (within (fun s => { s with awaits := false, yields := false })
    (rules.commaSeparated .rightBrace importSpecifier))

def importNamespace : Reader Unit := do
  expect .star
  expectKeyword .as_
  discard bindingName

/-- Steps over the phase of an import: `source` in front of a name and `from`, or `defer` in front of a
star. -/
def importPhase : Reader Unit := do
  let next ← following
  let third := (Lexeme.next next.rest).token
  if (← isAtKeyword .source_) && next.token.canName && third.isKeyword .from_ then advance
  else if (← isAtKeyword .defer_) && next.token.isPunctuator .star then advance

/-- What an import declaration imports: a default name, a list or a namespace, or a default name with
one of the others. -/
def importClause (rules : Rules) : Reader Unit := do
  let named := (← token).canName
  if named then discard bindingName
  let goesOn ← if named then eat .comma else pure true
  if goesOn then
    if ← isAt .star then importNamespace else importList rules

def importDeclaration (rules : Rules) : Reader Unit := do
  expectKeyword .import_
  importPhase
  match ← token with
  | .string _ => moduleRest rules
  | _ =>
    importClause rules
    expectKeyword .from_
    moduleRest rules

/-- One name of an export list: the exported name, and whether it can be exported without naming a
module to take it from. -/
def exportSpecifier : Reader (String × Bool) := do
  let inner ← moduleName
  let outer ← if ← eatKeyword .as_ then moduleName else pure inner
  return (outer.text, !inner.quoted && !(inner.keyword.any (·.isReservedForExport)))

/-- `export { … }`, from its brace on. Behind `from` the module may be missing; the names are then
those of this module. -/
def exportList (rules : Rules) : Reader Statement := do
  expect .leftBrace
  let names := (← rules.commaSeparated .rightBrace exportSpecifier).items
  let hasFrom ← eatKeyword .from_
  let fromModule := hasFrom && (← token).isLiteral
  if fromModule then
    string
    importAttributes rules
  flawUnless (fromModule || names.all Prod.snd)
  semicolon
  return .exportNames (names.map Prod.fst)

def exportAll (rules : Rules) : Reader Statement := do
  expect .star
  let name ← if ← eatKeyword .as_ then some <$> moduleName else pure none
  expectKeyword .from_
  moduleRest rules
  return .exportAll (name.map (·.text))

/-- `export default`, behind both keywords. -/
def exportDefault (rules : Rules) : Reader Statement := do
  decorators rules
  if ← isAtKeyword .class_ then discard (classRest rules)
  else if ← atFunction then discard (function rules false)
  else
    discard rules.assignment
    semicolon
  return .exportDefault

/-- A member of an enumeration. It is named by a word or a string. -/
def enumMember (rules : Rules) : Reader Unit := do
  match ← token with
  | .word .. | .string _ => skip
  | _ => failure
  if ← eat .assign then discard rules.assignment

/-- The name and the body of a namespace, behind its keyword. The body may be missing. -/
def namespaceRest (rules : Rules) : Reader Unit := do
  match ← token with
  | .string _ => skip
  | _ => qualifiedNameFrom rules.bound
  if ← isAt .leftBrace then block rules
  semicolon

/-- What a name imported by an equation stands for. -/
def importedEntity (rules : Rules) : Reader Unit := do
  if (← isAtKeyword .require_) && (← following).token.isPunctuator .leftParen then
    advance
    expect .leftParen
    string
    expect .rightParen
  else qualifiedNameFrom rules.bound

/-- A declaration of types that the keyword `k` starts, if it does: an enumeration, an interface, a
type, a namespace or a name for an entity. -/
def typeLike? (rules : Rules) (k : Keyword) : Option (Reader Unit) :=
  match k with
  | .enum_ => some do
    advance
    discard bindingName
    expect .leftBrace
    discard (rules.commaSeparated .rightBrace (enumMember rules))
  | .interface_ => some do
    advance
    discard bindingName
    heritage rules
    typeMembers rules
  | .type_ => some do
    advance
    discard bindingName
    expect .assign
    rules.typeTerm true
    semicolon
  | .namespace_ | .module_ => some do
    advance
    namespaceRest rules
  | .global_ => some do
    advance
    block rules
  | .import_ => some do
    advance
    discard bindingName
    expect .assign
    importedEntity rules
    semicolon
  | _ => none

def exportedDeclaration (rules : Rules) : Reader Declaration := do
  decorators rules
  let first ← token
  if first.isKeyword .class_ then return .classLike (← classRest rules)
  else if ← atFunction then
    let f ← function rules false
    flawUnless f.name.isSome
    return .function f.name f.parameters
  else match variableKind? first, first with
    | some kind, _ => return .variableList (← variableStatement rules kind)
    | none, .word _ (some k) _ =>
      match typeLike? rules k with
      | some reader =>
        reader
        return .typeLike
      | none => failure
    | none, _ => failure

def exportStatement (rules : Rules) : Reader Statement := do
  expectKeyword .export_
  if ← eatKeyword .default_ then exportDefault rules
  else match ← token with
    | .punctuator .star => exportAll rules
    | .punctuator .leftBrace => exportList rules
    | _ => return .exportDeclaration (← exportedDeclaration rules)

/-- A function declared by a statement. As the body of another statement it is a plain function. -/
def functionStatement (rules : Rules) (isBody : Bool) : Reader Unit := do
  let f ← function rules false
  flawUnless (f.name.isSome && (f.plain || !isBody))

/-- A statement that starts with the keyword `k`. -/
def wordStatement (rules : Rules) (isBody escaped : Bool) (k : Keyword) : Reader Statement := do
  match keywordStatement? rules isBody k with
  | some reader =>
    reader
    return .other
  | none =>
    let next := (← following).token
    if k == .export_ then exportStatement rules
    else if k == .import_ && !next.isPunctuator .dot && !next.isPunctuator .leftParen then
      importDeclaration rules
      return .other
    else if k == .class_ then
      flawUnless !isBody
      discard (classRest rules)
      return .other
    else if k == .let_ && !escaped then
      letStatement rules isBody
      return .other
    else if ← atFunction then
      functionStatement rules isBody
      return .other
    else if ← atDisposable then
      disposableStatement rules
      return .other
    else
      expressionStatement rules
      return .other

/-- A statement. Decorators may stand in front of any. -/
def statement (rules : Rules) (isBody : Bool) : Reader Statement := do
  decorators rules
  match ← token with
  | .word _ (some k) escaped => wordStatement rules isBody escaped k
  | .punctuator .leftBrace =>
    block rules
    return .other
  | .punctuator .semicolon =>
    skip
    return .other
  | _ =>
    expressionStatement rules
    return .other

end EsmCompletion.Script.Grammar
