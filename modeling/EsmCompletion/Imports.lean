import EsmCompletion.Buffer
import EsmCompletion.OrderedMap
import EsmCompletion.Unicode.Word

/-!
The namespace imports at the top of a buffer, found by their wording alone: the scan reads text, not
modules, so comments and strings count as well.
-/

namespace EsmCompletion

/-- The aliases of imported modules and the paths they stand for, in the order of the first
declaration of each alias. -/
abbrev Aliases := OrderedMap Path

namespace Imports

open Unicode

/-- How many characters are scanned unless a configuration says otherwise. -/
def defaultLookahead : Nat := 500

def opening : List Char := "import * as ".toList

def middle : List Char := " from '".toList

def closing : List Char := ".js'".toList

/-- What follows a given beginning. -/
def after? (beginning text : List Char) : Option (List Char) :=
  if beginning.isPrefixOf text then some (text.drop beginning.length) else none

/-- How many characters stand before the last closing of a text. -/
def lastClosing? : List Char → Option Nat
  | [] => none
  | c :: rest =>
    match lastClosing? rest with
    | some count => some (count + 1)
    | none => if closing.isPrefixOf (c :: rest) then some 0 else none

/-- The length of the dots and the slash that a relative path starts with. -/
def leadLength? : List Char → Option Nat
  | '.' :: '/' :: _ => some 2
  | '.' :: '.' :: '/' :: _ => some 3
  | _ => none

/-- The relative path at the start of a text: it reaches up to the last closing in its line, and at
least one character stands between its first slash and that closing. -/
def relativePath? (text : List Char) : Option (List Char) := do
  let lead ← leadLength? text
  let inside ← lastClosing? (((text.drop lead).takeWhile (· ≠ '\n')).drop 1)
  return text.take (lead + inside + 4)

/-- A namespace import and how many characters it takes up. -/
structure Statement where
  moduleAlias : List Char
  path : List Char
  length : Nat
  deriving DecidableEq, Repr

/-- The namespace import at the start of a text. -/
def statementAt? (text : List Char) : Option Statement := do
  let text ← after? opening text
  let word := text.takeWhile isWord
  if word.isEmpty then none
  else
    let path ← relativePath? (← after? middle (text.drop word.length))
    return ⟨word, path, opening.length + word.length + middle.length + path.length + 1⟩

/-- The namespace imports of a text from left to right, none inside another. The first argument
counts the characters that belong to the statement before. -/
def statementsFrom : Nat → List Char → List Statement
  | _, [] => []
  | skipped + 1, _ :: rest => statementsFrom skipped rest
  | 0, c :: rest =>
    match statementAt? (c :: rest) with
    | some statement => statement :: statementsFrom (statement.length - 1) rest
    | none => statementsFrom 0 rest

def statements (text : List Char) : List Statement := statementsFrom 0 text

/-- The directory that the relative paths in a file are read from. -/
def directoryOf (file : Path) : Path := file.parent?.getD ⟨"/"⟩

/-- The alias of a statement and the module it names, as seen from a directory. -/
def Statement.binding (directory : Path) (statement : Statement) : String × Path :=
  (String.ofList statement.moduleAlias,
    (directory.join ⟨String.ofList statement.path⟩).normalize)

/-- The aliases declared within the first characters of a buffer. A later declaration of an alias
wins. A buffer without a file has nothing to read relative paths from. -/
def ofBuffer (lookahead : Nat) (buffer : Buffer) : Aliases :=
  match buffer.file with
  | none => .empty
  | some file =>
    .ofList ((statements (buffer.slice 0 lookahead).toList).map
      (Statement.binding (directoryOf file)))

end Imports

end EsmCompletion
