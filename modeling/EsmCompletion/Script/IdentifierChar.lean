import EsmCompletion.Unicode.Letters
import EsmCompletion.Unicode.Marks
import EsmCompletion.Unicode.Digits

/-!
The characters of JavaScript source text: those of names, white space and line terminators.
-/

namespace EsmCompletion.Script

open EsmCompletion.Unicode

/-- Characters that may start a name without being letters. -/
def otherNameStarts : Ranges :=
  [(0x1885, 0x1886), (0x2118, 0x2118), (0x212E, 0x212E), (0x309B, 0x309C)]

/-- Characters that may continue a name without being letters, marks, digits or connectors. -/
def otherNameParts : Ranges :=
  [(0xB7, 0xB7), (0x387, 0x387), (0x1369, 0x1371), (0x19DA, 0x19DA), (0x200C, 0x200D),
   (0x30FB, 0x30FB), (0xFF65, 0xFF65)]

/-- Whether a non-ASCII character has the property ID_Start. The vertical tilde U+2E2F is a letter
but reserved for patterns. -/
def isIdStart (c : Char) : Bool :=
  (letters.covers c && c.toNat != 0x2E2F) || otherNameStarts.covers c

/-- Whether a character may start a name: ID_Start, the dollar sign and the low line. -/
def isNameStart (c : Char) : Bool :=
  if c.toNat < 128 then c.isAlpha || c == '$' || c == '_' else isIdStart c

/-- Whether a character may continue a name: ID_Continue, the dollar sign and the joiners. -/
def isNamePart (c : Char) : Bool :=
  if c.toNat < 128 then c.isAlphanum || c == '$' || c == '_'
  else isIdStart c || (marks.covers c && !enclosingMarks.covers c) || decimalDigits.covers c ||
    connectors.covers c || otherNameParts.covers c

/-- LF, CR and the two Unicode separators end a line. -/
def isLineTerminator (c : Char) : Bool :=
  c == '\n' || c == '\r' || c.toNat == 0x2028 || c.toNat == 0x2029

/-- White space between tokens that ends no line. -/
def blanks : Ranges :=
  [(0x9, 0x9), (0xB, 0xC), (0x20, 0x20), (0x85, 0x85), (0xA0, 0xA0), (0x1680, 0x1680),
   (0x2000, 0x200B), (0x202F, 0x202F), (0x205F, 0x205F), (0x3000, 0x3000), (0xFEFF, 0xFEFF)]

def isBlank (c : Char) : Bool := blanks.covers c

end EsmCompletion.Script
