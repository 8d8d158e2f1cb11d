import EsmCompletion.Script.Grammar.Expression

/-!
Variable declarations, and which of them need initializers.
-/

namespace EsmCompletion.Script.Grammar

open Reader

/-- What declares a variable. -/
inductive VariableKind where
  | variable
  | lexical
  | constant
  /-- `using` or `await using`: a plain name whose value is disposed of at the end of its scope. -/
  | disposable
  deriving DecidableEq, Repr

/-- The kind of declaration that a word starts, apart from `using`. -/
def variableKind? (t : Token) : Option VariableKind :=
  if t.isKeyword .var_ then some .variable
  else if t.isKeyword .let_ then some .lexical
  else if t.isKeyword .const_ then some .constant
  else none

/-- Whether a declared variable has the initializer that its declaration needs: constants, disposed
values and patterns need one. -/
def VariableKind.accepts (kind : VariableKind) (d : Declarator) : Bool :=
  d.initializer.isSome || (kind != .constant && kind != .disposable && !d.binding.isDestructuring)

def initializerOf : Expression → Initializer
  | .arrow parameters => .arrow parameters
  | _ => .other

def declarator (rules : Rules) : Reader Declarator := do
  let target ← binding rules
  if ← eat .assign then return ⟨target, some (initializerOf (← rules.assignment))⟩
  else return ⟨target, none⟩

/-- The variables of a declaration, behind its keyword. -/
def declarators (rules : Rules) : Reader (List Declarator) := rules.oneOrMore (declarator rules)

/-- A declaration as a statement of its own, from its keyword on. -/
def variableStatement (rules : Rules) (kind : VariableKind) : Reader (List Declarator) := do
  advance
  let list ← declarators rules
  flawUnless (list.all kind.accepts)
  semicolon
  return list

/-- The disposed values of a declaration, from `using` or `await using` on. The first name stands on
the line of the keyword and is not `await`. -/
def disposedValues (rules : Rules) : Reader (List Declarator) := do
  discard (eatKeyword .await_)
  expectKeyword .using_
  flawUnless (!(← get).afterNewline && !(← isAtKeyword .await_))
  let list ← declarators rules
  flawUnless (list.all fun d => !d.binding.isDestructuring)
  return list

/-- A declaration of disposed values as a statement of its own. -/
def disposableStatement (rules : Rules) : Reader Unit := do
  let list ← disposedValues rules
  flawUnless (list.all VariableKind.disposable.accepts)
  semicolon

/-- Whether a statement that declares disposed values starts here. Any name may follow `using`. -/
def atDisposable : Reader Bool := do
  let next ← following
  let third := Lexeme.next next.rest
  return ((← isAtKeyword .using_) && next.token.canName) ||
    ((← isAtKeyword .await_) && next.token.isKeyword .using_ && third.token.canName)

/-- Whether the head of a loop starts with a declaration of disposed values. Here `using` alone is
followed by a name that is no keyword of any kind. -/
def atDisposableLoop : Reader Bool := do
  let next ← following
  return ((← isAtKeyword .using_) && next.token.isPlainName) ||
    ((← isAtKeyword .await_) && next.token.isKeyword .using_)

end EsmCompletion.Script.Grammar
