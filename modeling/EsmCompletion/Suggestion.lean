/-!
Suggestions: the label that is shown for a completion, and the snippet that is inserted when it is
accepted.
-/

namespace EsmCompletion

/-- What is shown, and what is inserted. -/
structure Suggestion where
  label : String
  insertion : String
  deriving DecidableEq, Repr

namespace Suggestion

/-- Suggests an export that is not called: the name itself is inserted. -/
def value (moduleName name : String) : Suggestion :=
  { label := name ++ "\t" ++ moduleName
    insertion := name }

/-- The snippet placeholder with the given number and text. -/
def placeholder (number : Nat) (text : String) : String :=
  "$\x7b" ++ toString number ++ ":" ++ text ++ "\x7d"

/-- The placeholders of the parameters, numbered from the given number on. -/
def placeholdersFrom : Nat → List String → List String
  | _, [] => []
  | number, parameter :: parameters =>
    placeholder number parameter :: placeholdersFrom (number + 1) parameters

/-- Suggests a call of an export: each parameter becomes a placeholder, numbered from one and filled
with the parameter's name. -/
def callable (moduleName name : String) (parameters : List String) : Suggestion :=
  { label := name ++ "(" ++ ", ".intercalate parameters ++ ")\t" ++ moduleName
    insertion := name ++ "(" ++ ", ".intercalate (placeholdersFrom 1 parameters) ++ ")" }

/-- Suggests an alias whose beginning was typed. -/
def ofAlias (moduleAlias : String) : Suggestion :=
  { label := moduleAlias ++ ".js\tmodule"
    insertion := moduleAlias }

end Suggestion

end EsmCompletion
