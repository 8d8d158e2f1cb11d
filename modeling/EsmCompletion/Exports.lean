import EsmCompletion.OrderedMap
import EsmCompletion.Script.Program
import EsmCompletion.Suggestion

/-!
The named exports of a module, as far as they are declared where they are exported: functions and
variables. Default exports, re-exports and classes are left out.
-/

namespace EsmCompletion

open Script

/-- Exported names with their suggestions, in the order of their first declaration. -/
abbrev ExportMap := OrderedMap Suggestion

namespace Exports

/-- The names of the parameters that can be shown: plain names, with or without a default. Patterns
and the rest parameter are left out. -/
def parameterName? : Parameter → Option String
  | .required (.name n) => some n
  | .defaulted (.name n) => some n
  | _ => none

/-- Suggests a declared variable, as a call if it is an arrow function. -/
def ofVariable (moduleName name : String) : Option Initializer → Suggestion
  | some (.arrow parameters) =>
    .callable moduleName name (parameters.filterMap parameterName?)
  | _ => .value moduleName name

/-- Adds the variables of a declaration, or nothing if one of them is a pattern. -/
def addVariables (moduleName : String) : List Declarator → ExportMap → Option ExportMap
  | [], exports => some exports
  | ⟨.name name, initializer⟩ :: rest, exports =>
    addVariables moduleName rest
      (exports.insert name (ofVariable moduleName name initializer))
  | ⟨.destructuring _, _⟩ :: _, _ => none

/-- Adds what a declaration exports. -/
def addDeclaration (moduleName : String) : Declaration → ExportMap → Option ExportMap
  | .function (some name) parameters, exports =>
    some (exports.insert name
      (.callable moduleName name (parameters.filterMap parameterName?)))
  | .variableList declarators, exports => addVariables moduleName declarators exports
  | _, exports => some exports

def addStatement (moduleName : String) : Statement → ExportMap → Option ExportMap
  | .exportDeclaration declaration, exports => addDeclaration moduleName declaration exports
  | _, exports => some exports

def addStatements (moduleName : String) : List Statement → ExportMap → Option ExportMap
  | [], exports => some exports
  | statement :: rest, exports =>
    (addStatement moduleName statement exports).bind (addStatements moduleName rest)

/-- The exports of a parsed module, or nothing if it exports a variable declared by a pattern. -/
def ofProgram? (moduleName : String) (program : Program) : Option ExportMap :=
  addStatements moduleName program.body .empty

end Exports

inductive SourceError where
  | malformed (moduleName diagnostics : String)
  | destructuredExport (moduleName : String)
  deriving DecidableEq, Repr

namespace SourceError

def message : SourceError → String
  | malformed moduleName diagnostics => "Failed to parse " ++ moduleName ++ ": " ++ diagnostics
  | destructuredExport moduleName =>
    "Unsupported export in " ++ moduleName ++ ": destructuring binding in exported declaration"

end SourceError

def exportsOf (source moduleName : String) : Except SourceError ExportMap :=
  match Program.parse? source with
  | none => .error (.malformed moduleName (Program.diagnostics source))
  | some program =>
    match Exports.ofProgram? moduleName program with
    | none => .error (.destructuredExport moduleName)
    | some exports => .ok exports

end EsmCompletion
