import EsmCompletion.Script.Grammar.Reader
import EsmCompletion.Script.Syntax

/-!
The productions that lead back to each other. A production is a plain definition that takes the other
productions it leads back to as a record, `Rules`; `Program` ties the knot.
-/

namespace EsmCompletion.Script.Grammar

/-- What the grammar needs to know of an expression that it has read. -/
inductive Expression where
  | name (name : String)
  /-- A property access that is not part of an optional chain. -/
  | property
  /-- An array or object literal that can be read as a destructuring pattern, with the places of the
  defaults `{ a = 1 }` that it then claims. -/
  | pattern (claims : List Nat)
  /-- An assignment to a target, which inside a pattern is a target with a default. -/
  | defaultedTarget
  /-- An expression in parentheses, and whether that is a single target of an assignment. -/
  | parenthesized (isTarget : Bool)
  | arrow (parameters : List Parameter)
  /-- A dynamic import, to which `new` cannot be applied. -/
  | importCall
  | other
  deriving DecidableEq, Repr

namespace Expression

/-- Whether the expression may stand in front of or behind `++`. -/
def isSimpleTarget : Expression → Bool
  | name _ | property => true
  | parenthesized isTarget => isTarget
  | _ => false

/-- The defaults that the expression claims on the left of an assignment; `none` if it cannot stand
there. -/
def targetClaims? (e : Expression) : Option (List Nat) :=
  match e with
  | pattern claims => some claims
  | e => if e.isSimpleTarget then some [] else none

/-- The same as an element of a pattern, where it may carry a default. -/
def elementClaims? : Expression → Option (List Nat)
  | defaultedTarget => some []
  | e => e.targetClaims?

end Expression

/-- The productions that others lead back to. -/
structure Rules where
  /-- A bound on the number of tokens of the text. -/
  bound : Nat
  /-- An expression without a comma operator. -/
  assignment : Reader Expression
  /-- An operand with the operators in front of it. -/
  unary : Reader Expression
  /-- A call, a property access, or anything that binds tighter. -/
  leftHand : Reader Expression
  /-- What `new` is applied to. -/
  constructed : Reader Unit
  /-- A name or a pattern that is declared. -/
  binding : Reader Binding
  /-- A statement; the flag tells whether it is the body of another one, where declarations are
  restricted. -/
  statement : Bool → Reader Statement
  /-- A type; the flag tells whether it may be a conditional one. -/
  typeTerm : Bool → Reader Unit

namespace Rules

/-- Items up to a closing punctuator. -/
def itemsUntil {α : Type} (rules : Rules) (close : Punctuator) (item : Reader α) :
    Reader (List α) :=
  Reader.itemsUntil close item rules.bound []

def commaSeparated {α : Type} (rules : Rules) (close : Punctuator) (item : Reader α) :
    Reader (Reader.Separated α) :=
  Reader.commaSeparated close item rules.bound []

def oneOrMore {α : Type} (rules : Rules) (item : Reader α) : Reader (List α) :=
  Reader.oneOrMore item rules.bound []

end Rules

open Reader

/-- An expression, with comma operators. Brackets access properties in it, also inside a decorator;
without a comma operator they go on doing so behind it. -/
def expression (rules : Rules) : Reader Expression := do
  let inDecorator := (← setting).inDecorator
  change fun s => { s with inDecorator := false }
  let first ← rules.assignment
  if ← eat .comma then
    discard (rules.oneOrMore rules.assignment)
    change fun s => { s with inDecorator := inDecorator }
    return .other
  else return first

end EsmCompletion.Script.Grammar
