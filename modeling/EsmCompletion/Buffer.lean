import EsmCompletion.Path

/-!
Editor buffers. Offsets count characters, and an offset past the end stands for the end. A line is
cut out of the text at byte positions; a text can be cut only where a character begins, and at its
end.
-/

namespace EsmCompletion

/-- The text of an editor buffer and the file it belongs to, if it was ever saved. -/
structure Buffer where
  text : String
  file : Option Path
  deriving DecidableEq, Repr

namespace Buffer

def length (buffer : Buffer) : Nat := buffer.text.toList.length

def isEmpty (buffer : Buffer) : Bool := buffer.text.toList.isEmpty

/-- The text between two offsets. It is empty if the second is not behind the first. -/
def slice (buffer : Buffer) (first last : Nat) : String :=
  String.ofList ((buffer.text.toList.drop first).take (last - first))

/-- The characters without the carriage returns at their end. -/
def trimReturns (line : List Char) : List Char :=
  (line.reverse.dropWhile (· = '\r')).reverse

/-! ## Byte positions -/

/-- How many bytes characters take up in UTF-8. -/
def byteLength : List Char → Nat
  | [] => 0
  | c :: rest => c.utf8Size + byteLength rest

/-- The characters of a text with the positions of their first bytes, the first one at the given
position. -/
def positionedFrom : Nat → List Char → List (Nat × Char)
  | _, [] => []
  | position, c :: rest => (position, c) :: positionedFrom (position + c.utf8Size) rest

def positioned (text : List Char) : List (Nat × Char) := positionedFrom 0 text

/-- The byte position of an offset. -/
def bytePosition (text : List Char) (offset : Nat) : Nat :=
  ((positioned text)[offset]?.map Prod.fst).getD (byteLength text)

/-- The two parts of a text that is cut at a byte position. Inside a character and behind its end it
cannot be cut. -/
def cutAt? : Nat → List Char → Option (List Char × List Char)
  | 0, text => some ([], text)
  | _ + 1, [] => none
  | position, c :: rest =>
    if c.utf8Size ≤ position then
      (cutAt? (position - c.utf8Size) rest).map fun parts => (c :: parts.1, parts.2)
    else none

/-- The part of a text between two byte positions, if it can be cut at both and they are in order.
-/
def between? (first last : Nat) (text : List Char) : Option (List Char) := do
  let (front, _) ← cutAt? last text
  let (_, part) ← cutAt? first front
  return part

/-! ## Lines -/

/-- Where the line of a byte position begins: behind the last line feed before that position, or at
the start of the text. -/
def lineStart? (position : Nat) (text : List Char) : Option Nat := do
  let before ← between? 0 position text
  return match (positioned before).reverse.find? (·.2 = '\n') with
    | some (lineFeed, _) => lineFeed + 1
    | none => 0

/-- Where the line of a byte position ends: at the first line feed from that position on, or at the
end of the text. A position on a line feed belongs to the line that ends there. -/
def lineEnd? (position : Nat) (text : List Char) : Option Nat := do
  let behind ← between? position (byteLength text) text
  return match (positioned behind).find? (·.2 = '\n') with
    | some (lineFeed, _) => position + lineFeed
    | none => byteLength text

/-- What stands in the line of an offset, carriage returns included. -/
def lineText? (text : List Char) (offset : Nat) : Option (List Char) := do
  let position := bytePosition text offset
  between? (← lineStart? position text) (← lineEnd? position text) text

/-- The line of an offset, without its line feed and the carriage returns before it. -/
def lineAt (buffer : Buffer) (offset : Nat) : String :=
  String.ofList (trimReturns ((lineText? buffer.text.toList offset).getD []))

theorem toList_slice_zero (buffer : Buffer) (count : Nat) :
    (buffer.slice 0 count).toList = buffer.text.toList.take count := by
  simp [slice]

end Buffer

end EsmCompletion
