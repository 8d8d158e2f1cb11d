import EsmCompletion.FileTree.Change

/-!
The disk as a tree of files. Only what lies on the way of given paths is looked up, and each time
anew, so that a tree is as old as the question it is made for.
-/

namespace EsmCompletion.Disk

/-- The places that the walk of segments comes by. -/
def passed (location : Location) : List String → List Location
  | [] => [location]
  | segment :: rest =>
    let next :=
      if segment = "" ∨ segment = "." then location
      else if segment = ".." then location.tail
      else segment :: location
    location :: passed next rest

/-- The file or directory at a place on disk, if there is one that can be read. -/
def entryOf (location : Location) : IO (Option Entry) := do
  try
    let path := (← IO.appPath) / location.path.text
    let metadata ← path.metadata
    let modified : Timestamp := ⟨metadata.modified.sec.toNat, metadata.modified.nsec.toNat⟩
    match metadata.type with
    | .dir => return some ⟨.directory, modified⟩
    | _ => return some ⟨.file (← IO.FS.readBinFile path), modified⟩
  catch _ => return none

def record (tree : FileTree) (location : Location) : IO FileTree := do
  match ← entryOf location with
  | some entry => return tree.set location entry
  | none => return tree

/-- The working directory, unless it was removed. -/
def workingDirectory : IO (Option Location) := do
  try
    return some (Location.ofPath ⟨(← IO.currentDir).toString⟩)
  catch _ => return none

/-- The part of the disk on the way of some paths. -/
def snapshot (workingDirectory : Option Location) (paths : List Path) : IO FileTree := do
  let blank : FileTree := { FileTree.empty with workingDirectory }
  let locations := paths.flatMap fun path =>
    match blank.start path with
    | .ok location => passed location path.segments
    | .error _ => []
  locations.eraseDups.foldlM record blank

def bytesAt (tree : FileTree) (location : Location) : ByteArray :=
  match tree.entryAt? location with
  | some ⟨.file bytes, _⟩ => bytes
  | _ => ByteArray.empty

/-- Adds to the file at a place on disk what was appended to it between two trees. The file is made
if it is not there, with the directories above it. -/
def appendNew (location : Location) (before after : FileTree) : IO Unit := do
  -- the path of a place is absolute, so it does not matter what it is read from
  let here ← IO.appPath
  IO.FS.createDirAll (here / (Location.path location.tail).text)
  let handle ← IO.FS.Handle.mk (here / location.path.text) .append
  let bytes := bytesAt after location
  handle.write (bytes.extract (bytesAt before location).size bytes.size)

end EsmCompletion.Disk
