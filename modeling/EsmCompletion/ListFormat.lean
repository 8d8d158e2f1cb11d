import EsmCompletion.Json.Writer
import EsmCompletion.Suggestion

/-!
The two forms in which lists of suggestions are written.
-/

namespace EsmCompletion

inductive ListFormat where
  | json
  | lines
  deriving DecidableEq, Repr

namespace ListFormat

/-- The format with a name, whatever the case of its letters. -/
def named? (name : String) : Option ListFormat :=
  match String.ofList (name.toList.map Char.toLower) with
  | "json" => some .json
  | "list" => some .lines
  | _ => none

def unknown (name : String) : String := "Unknown format: " ++ name

/-- A suggestion as a JSON array of two strings. -/
def writePair (suggestion : Suggestion) : List Char :=
  Json.writeArray [Json.writeString suggestion.label, Json.writeString suggestion.insertion]

def writeJson (suggestions : List Suggestion) : String :=
  String.ofList (Json.writeArray (suggestions.map writePair))

/-- Writes suggestions one on a line, label and insertion with a tab between them. -/
def writeLines (suggestions : List Suggestion) : String :=
  "\n".intercalate (suggestions.map fun suggestion =>
    suggestion.label ++ "\t" ++ suggestion.insertion)

def write : ListFormat → List Suggestion → String
  | json => writeJson
  | lines => writeLines

end ListFormat

end EsmCompletion
