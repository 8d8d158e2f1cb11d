/-!
What is kept of a parsed module: its top-level statements, and of these what they export. Function
bodies, expressions and all other statements are checked and then forgotten.
-/

namespace EsmCompletion.Script

/-- The left side of a declaration, or a parameter without its default: a plain name, or an object
or array pattern with all the names it binds. -/
inductive Binding where
  | name (name : String)
  | destructuring (names : List String)
  deriving DecidableEq, Repr

namespace Binding

/-- The names that a binding introduces, in source order. -/
def boundNames : Binding → List String
  | name n => [n]
  | destructuring names => names

/-- Whether the binding is an object or array pattern. -/
def isDestructuring : Binding → Bool
  | name _ => false
  | destructuring _ => true

end Binding

inductive Parameter where
  | required (binding : Binding)
  | defaulted (binding : Binding)
  | rest (binding : Binding)
  deriving DecidableEq, Repr

/-- What a declared variable starts as. A parenthesized arrow function is not an arrow function
here. -/
inductive Initializer where
  | arrow (parameters : List Parameter)
  | other
  deriving DecidableEq, Repr

structure Declarator where
  binding : Binding
  initializer : Option Initializer
  deriving DecidableEq, Repr

inductive Declaration where
  | function (name : Option String) (parameters : List Parameter)
  | variableList (declarators : List Declarator)
  | classLike (name : Option String)
  /-- An enumeration, interface or namespace. -/
  | typeLike
  deriving DecidableEq, Repr

namespace Declaration

def exportedNames : Declaration → List String
  | function name _ => name.toList
  | variableList declarators => declarators.flatMap fun d => d.binding.boundNames
  | classLike name => name.toList
  | typeLike => []

end Declaration

inductive Statement where
  | exportDeclaration (declaration : Declaration)
  /-- `export { … }`, with or without a module to take the names from. -/
  | exportNames (names : List String)
  /-- `export * from …`, or `export * as name from …`. -/
  | exportAll (name : Option String)
  | exportDefault
  | other
  deriving DecidableEq, Repr

def Statement.exportedNames : Statement → List String
  | exportDeclaration d => d.exportedNames
  | exportNames names => names
  | exportAll name => name.toList
  | exportDefault => ["default"]
  | other => []

structure Program where
  body : List Statement
  deriving DecidableEq, Repr

namespace Program

def exportedNames (program : Program) : List String :=
  program.body.flatMap Statement.exportedNames

end Program

end EsmCompletion.Script
