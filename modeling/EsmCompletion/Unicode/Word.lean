import EsmCompletion.Unicode.Letters
import EsmCompletion.Unicode.Marks
import EsmCompletion.Unicode.Digits

/-!
Word characters, as patterns over text understand them, and white space.
-/

namespace EsmCompletion.Unicode

/-- Circled and squared letters: symbols that count as alphabetic. -/
def circledLetters : Ranges :=
  [(0x24B6, 0x24E9), (0x1F130, 0x1F149), (0x1F150, 0x1F169), (0x1F170, 0x1F189)]

/-- The zero-width joiners U+200C and U+200D. -/
def joiners : Ranges := [(0x200C, 0x200D)]

/-- The letters, marks and digits that came with version 17 of Unicode. Patterns over text follow
version 16. -/
def latestAdditions : Ranges :=
  [(0x88F, 0x88F), (0xC5C, 0xC5C), (0xCDC, 0xCDC), (0x1ACF, 0x1ADD), (0x1AE0, 0x1AEB),
   (0xA7CE, 0xA7CF), (0xA7D2, 0xA7D2), (0xA7D4, 0xA7D4), (0xA7F1, 0xA7F1), (0x10940, 0x10959),
   (0x10EC5, 0x10EC7), (0x10EFA, 0x10EFB), (0x11B60, 0x11B67), (0x11DB0, 0x11DDB),
   (0x11DE0, 0x11DE9), (0x16EA0, 0x16EB8), (0x16EBB, 0x16ED3), (0x16FF2, 0x16FF6),
   (0x187F8, 0x187FF), (0x18D09, 0x18D1E), (0x18D80, 0x18DF2), (0x1E6C0, 0x1E6DE),
   (0x1E6E0, 0x1E6F5), (0x1E6FE, 0x1E6FF), (0x2B73A, 0x2B73F), (0x2CEA2, 0x2CEAD),
   (0x323B0, 0x33479)]

/-- Word characters: alphabetic characters, marks, decimal digits, connector punctuation and the
joiners. In ASCII these are letters, digits and the low line. -/
def isWord (c : Char) : Bool :=
  if c.toNat < 128 then c.isAlphanum || c == '_'
  else !latestAdditions.covers c &&
    (letters.covers c || marks.covers c || decimalDigits.covers c || connectors.covers c ||
      circledLetters.covers c || joiners.covers c)

/-- Code points with the property White_Space. -/
def whiteSpace : Ranges :=
  [(0x9, 0xD), (0x20, 0x20), (0x85, 0x85), (0xA0, 0xA0), (0x1680, 0x1680), (0x2000, 0x200A),
   (0x2028, 0x2029), (0x202F, 0x202F), (0x205F, 0x205F), (0x3000, 0x3000)]

/-- Whether a character has the property White_Space. -/
def isWhiteSpace (c : Char) : Bool := whiteSpace.covers c

theorem isWord_dot : isWord '.' = false := by decide

theorem isWord_space : isWord ' ' = false := by decide

theorem isWord_lineFeed : isWord '\n' = false := by decide

end EsmCompletion.Unicode
