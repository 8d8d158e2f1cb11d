import EsmCompletion.Path

/-!
A tree of files and directories without links, and the walk of a path through it. The walk looks at
one segment at a time, so a path is refused at the first segment that cannot be passed.
-/

namespace EsmCompletion

inductive FileFault where
  | notFound
  | alreadyExists
  | notDirectory
  | isDirectory
  | nameTooLong
  | notText
  | nulInPath
  deriving DecidableEq, Repr

/-- The wording of a fault. Those that the system reports carry its error number. -/
def FileFault.message : FileFault → String
  | notFound => "No such file or directory (os error 2)"
  | alreadyExists => "File exists (os error 17)"
  | notDirectory => "Not a directory (os error 20)"
  | isDirectory => "Is a directory (os error 21)"
  | nameTooLong => "File name too long (os error 36)"
  | notText => "stream did not contain valid UTF-8"
  | nulInPath => "file name contained an unexpected NUL byte"

/-- A moment, in seconds since the epoch and nanoseconds within the second. -/
structure Timestamp where
  seconds : Nat
  nanoseconds : Nat
  deriving DecidableEq, Repr

inductive Content where
  | directory
  | file (bytes : ByteArray)

structure Entry where
  content : Content
  modified : Timestamp

/-- The place of an entry: its name, the name of its directory, and so on up to the root, which is
the empty list. -/
abbrev Location := List String

/-- The place that a path names on its text alone. -/
def Location.ofPath (path : Path) : Location :=
  (path.components.foldl Path.pushComponent []).filterMap fun
    | .normal name => some name
    | _ => none

def Location.path (location : Location) : Path :=
  .ofComponents (.root :: location.reverse.map .normal)

/-- A tree of files, and the directory that relative paths are read from, unless it was removed. The
root is a directory whatever `entries` says about it. -/
structure FileTree where
  entries : Location → Option Entry
  workingDirectory : Option Location

namespace FileTree

def empty : FileTree := ⟨fun _ => none, some []⟩

/-- The entry at a location. The root was never modified. -/
def entryAt? (tree : FileTree) : Location → Option Entry
  | [] => some ⟨.directory, ⟨0, 0⟩⟩
  | name :: directory => tree.entries (name :: directory)

/-- The longest name of an entry, in bytes of UTF-8. -/
def nameLimit : Nat := 255

/-- The location inside a directory that a name stands for, or why there cannot be one. -/
def child (directory : Location) (name : String) : Except FileFault Location :=
  if name.utf8ByteSize ≤ nameLimit then .ok (name :: directory) else .error .nameTooLong

/-- One step of a walk. Only a directory can be stepped out of; two dots lead to its directory, and
the root is its own. -/
def step (tree : FileTree) (location : Location) (segment : String) :
    Except FileFault Location :=
  match tree.entryAt? location with
  | none => .error .notFound
  | some ⟨.file _, _⟩ => .error .notDirectory
  | some ⟨.directory, _⟩ =>
    if segment = "" ∨ segment = "." then .ok location
    else if segment = ".." then .ok location.tail
    else do
      let next ← child location segment
      match tree.entryAt? next with
      | none => .error .notFound
      | some _ => .ok next

/-- Where the walk of a path starts. In a directory that was removed nothing can be found. -/
def start (tree : FileTree) (path : Path) : Except FileFault Location :=
  if path.isAbsolute then .ok []
  else
    match tree.workingDirectory with
    | some location => .ok location
    | none => .error .notFound

def walk (tree : FileTree) (location : Location) (segments : List String) :
    Except FileFault Location :=
  segments.foldlM tree.step location

/-- Texts that no path can have. -/
def refusal? (path : Path) : Option FileFault :=
  if path.text.toList.contains '\x00' then some .nulInPath
  else if path.text = "" then some .notFound
  else none

/-- The location of the file or directory that a path leads to. -/
def resolve (tree : FileTree) (path : Path) : Except FileFault Location :=
  match refusal? path with
  | some fault => .error fault
  | none => (tree.start path).bind (tree.walk · path.segments)

/-- The file or directory that a path leads to. -/
def find (tree : FileTree) (path : Path) : Except FileFault Entry := do
  let location ← tree.resolve path
  match tree.entryAt? location with
  | none => .error .notFound
  | some entry => .ok entry

/-- The text of a file, if its bytes are UTF-8. A byte order mark stays in the text. -/
def readText (tree : FileTree) (path : Path) : Except FileFault String := do
  match (← tree.find path).content with
  | .directory => .error .isDirectory
  | .file bytes =>
    match String.fromUTF8? bytes with
    | none => .error .notText
    | some text => .ok text

def isDirectory (tree : FileTree) (path : Path) : Bool :=
  match tree.find path with
  | .ok ⟨.directory, _⟩ => true
  | _ => false

/-- The path of the working directory. -/
def workingPath (tree : FileTree) : Except FileFault Path :=
  match tree.workingDirectory with
  | some location => .ok location.path
  | none => .error .notFound

/-- The absolute path in normal form that a path stands for. That of an absolute path is told
without the working directory. -/
def absolutePath (tree : FileTree) (path : Path) : Except FileFault Path :=
  if path.isAbsolute then .ok path.normalize
  else tree.workingPath.map path.absoluteFrom

theorem walk_cons (tree : FileTree) (location : Location) (segment : String)
    (segments : List String) :
    tree.walk location (segment :: segments) =
      (tree.step location segment).bind (tree.walk · segments) := rfl

end FileTree

end EsmCompletion
