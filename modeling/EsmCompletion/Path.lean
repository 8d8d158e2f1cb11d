/-!
Paths as text, their components, and the operations that look at the text alone. A path is kept as
it is written, because it is shown that way; two spellings name the same place for the cache when
their components agree.
-/

namespace EsmCompletion

structure Path where
  text : String
  deriving DecidableEq, Repr

namespace Path

inductive Component where
  | root
  | current
  | parent
  | normal (name : String)
  deriving DecidableEq, Repr

def Component.text : Component → String
  | root => "/"
  | current => "."
  | parent => ".."
  | normal name => name

/-- The component that a segment between slashes stands for; empty segments and single dots stand
for none. -/
def Component.ofSegment? (segment : String) : Option Component :=
  if segment = "" ∨ segment = "." then none
  else if segment = ".." then some .parent
  else some (.normal segment)

/-- The texts between the slashes. -/
def segments (path : Path) : List String := (path.text.toList.splitOn '/').map String.ofList

def isAbsolute (path : Path) : Bool := path.text.toList.head? == some '/'

/-- The components of a path. A single dot counts at the very start only. -/
def components (path : Path) : List Component :=
  if path.isAbsolute then .root :: path.segments.filterMap Component.ofSegment?
  else if path.segments.head? = some "." then
    .current :: path.segments.filterMap Component.ofSegment?
  else path.segments.filterMap Component.ofSegment?

/-- The path with the given components, written with single slashes. -/
def ofComponents : List Component → Path
  | .root :: rest => ⟨"/" ++ "/".intercalate (rest.map Component.text)⟩
  | components => ⟨"/".intercalate (components.map Component.text)⟩

/-- The path without its last component. The root and the empty path have none. -/
def parent? (path : Path) : Option Path :=
  match path.components.reverse with
  | [] | .root :: _ => none
  | _ :: rest => some (ofComponents rest.reverse)

/-- The last component, if it is a name. -/
def fileName? (path : Path) : Option String :=
  match path.components.getLast? with
  | some (.normal name) => some name
  | _ => none

/-- What follows the last dot of a name, if something stands before that dot. -/
def extensionOf? (name : String) : Option String :=
  let reversed := name.toList.reverse
  match reversed.dropWhile (· != '.') with
  | _ :: _ :: _ => some (String.ofList (reversed.takeWhile (· != '.')).reverse)
  | _ => none

def extension? (path : Path) : Option String := path.fileName?.bind extensionOf?

/-- The last component, or the whole text if that is not a name. -/
def shownName (path : Path) : String := path.fileName?.getD path.text

/-- A path read from a directory: an absolute path stands for itself, any other follows the
directory's text and a slash. -/
def join (directory path : Path) : Path :=
  if path.isAbsolute then path
  else if directory.text.toList.getLast?.all (· == '/') then ⟨directory.text ++ path.text⟩
  else ⟨directory.text ++ "/" ++ path.text⟩

/-- Adds a component to a stack of components, the last one first: two dots take a name away, and
are dropped where there is none. -/
def pushComponent (stack : List Component) : Component → List Component
  | .current => stack
  | .parent =>
    match stack with
    | .normal _ :: below => below
    | _ => stack
  | component => component :: stack

/-- The path without single and double dots, resolved on the text alone. -/
def normalize (path : Path) : Path :=
  ofComponents (path.components.foldl pushComponent []).reverse

/-- The normal form of a path that is read from a working directory. An absolute path does not
depend on that directory. -/
def absoluteFrom (path workingDirectory : Path) : Path := (workingDirectory.join path).normalize

theorem join_of_isAbsolute {directory path : Path} (h : path.isAbsolute = true) :
    directory.join path = path := by
  simp [join, h]

end Path

end EsmCompletion
