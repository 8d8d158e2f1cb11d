import EsmCompletion.Script.IdentifierChar

/-!
Regular expression literals. The pattern is not looked into beyond finding its end; the flags have
to be known and each given once.
-/

namespace EsmCompletion.Script.RegularExpression

/-- Reads a pattern up to the slash that ends it. A slash in a class or after a backslash does not
end it, and a line terminator cannot occur in it. -/
def patternEnd : Bool → List Char → Option (List Char)
  | inClass, '\\' :: c :: r => if isLineTerminator c then none else patternEnd inClass r
  | inClass, c :: r =>
    if isLineTerminator c then none
    else if c == '/' && !inClass then some r
    else patternEnd (c == '[' || (inClass && c != ']')) r
  | _, [] => none

/-- The known flags. -/
def flags : List Char := "dgimsuvy".toList

/-- Reads a literal after its opening slash and gives the text after its flags. -/
def read? (cs : List Char) : Option (List Char) :=
  (patternEnd false cs).bind fun r =>
    let given := r.takeWhile isNamePart
    if given.all (flags.contains ·) && given.eraseDups.length == given.length then
      some (r.dropWhile isNamePart)
    else none

end EsmCompletion.Script.RegularExpression
