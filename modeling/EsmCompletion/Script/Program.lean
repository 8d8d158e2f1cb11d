import EsmCompletion.Script.Grammar.Module

/-!
Parsing a module. The productions refer back to each other through a record that is built level by
level, one level for each time a production is entered again; a text of `n` characters never needs
more than a fixed multiple of `n` levels.
-/

namespace EsmCompletion.Script

open Grammar

/-- The productions, of which those for `levels + 1` lead back to those for `levels`. -/
def Grammar.Rules.ofLevels (bound : Nat) : Nat → Rules
  | 0 =>
    { bound, assignment := failure, unary := failure, leftHand := failure, constructed := failure,
      binding := failure, statement := fun _ => failure, typeTerm := fun _ => failure }
  | levels + 1 =>
    { bound
      assignment := fun place => Grammar.assignment (ofLevels bound levels) place
      unary := fun place => Grammar.unary (ofLevels bound levels) place
      leftHand := fun place => Grammar.leftHand (ofLevels bound levels) place
      constructed := fun place => Grammar.constructed (ofLevels bound levels) place
      binding := fun place => Grammar.binding (ofLevels bound levels) place
      statement := fun isBody place => Grammar.statement (ofLevels bound levels) isBody place
      typeTerm := fun conditional place =>
        Grammar.typeTerm (ofLevels bound levels) conditional place }

namespace Grammar

def statements (rules : Rules) : Nat → List Statement → Reader (List Statement)
  | 0, _ => failure
  | bound + 1, earlier => do
    if (← Reader.token) == .endOfInput then return earlier.reverse
    else
      let s ← rules.statement false
      statements rules bound (s :: earlier)

/-- A whole module of the given length. It has no flaw, no default of an object literal is left
unclaimed, and no name is exported twice. -/
def program (length : Nat) : Reader Program := do
  let rules := Rules.ofLevels (length + 1) (4 * length + 8)
  let body ← statements rules rules.bound []
  let place ← get
  guard (place.flaws == 0 && place.unclaimed.isEmpty)
  let result : Program := ⟨body⟩
  guard result.exportedNames.Nodup
  return result

end Grammar

/-- The text behind an interpreter directive, a first line that starts with `#!`. -/
def skipDirective : List Char → List Char
  | '#' :: '!' :: r => r.dropWhile (!isLineTerminator ·)
  | cs => cs

namespace Program

/-- Reads a source text: the module that it writes, or nothing if it is not well formed, and the place
where the reading ended. -/
def read (source : String) : Option Program × Place :=
  let text := skipDirective source.toList
  (Grammar.program text.length).run (.start text)

/-- The module that a source text writes, or nothing if the text is not well formed. -/
def parse? (source : String) : Option Program := (read source).1

/-- What is reported about a text that is not well formed. -/
def diagnostics (source : String) : String :=
  "no well-formed module, read up to token " ++ toString (read source).2.index

end Program

end EsmCompletion.Script
