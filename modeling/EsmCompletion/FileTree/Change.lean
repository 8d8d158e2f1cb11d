import EsmCompletion.FileTree.Basic

/-!
Changes to a tree of files: single entries, directories made as a path needs them, and files that
are opened to be appended to.
-/

namespace EsmCompletion.FileTree

def set (tree : FileTree) (location : Location) (entry : Entry) : FileTree :=
  { tree with entries := fun other => if other = location then some entry else tree.entries other }

/-- The tree without the entry at a location and everything below it. -/
def remove (tree : FileTree) (location : Location) : FileTree :=
  { tree with entries := fun other => if location <:+ other then none else tree.entries other }

def touch (tree : FileTree) (location : Location) (modified : Timestamp) : FileTree :=
  match tree.entryAt? location with
  | some entry => tree.set location { entry with modified }
  | none => tree

/-- The tree with directories at a location and above it, where there are no entries. -/
def fill (tree : FileTree) (modified : Timestamp) : Location → FileTree
  | [] => tree
  | name :: directory =>
    let tree := tree.fill modified directory
    match tree.entryAt? (name :: directory) with
    | some _ => tree
    | none => tree.set (name :: directory) ⟨.directory, modified⟩

/-- The tree with an entry, and with the directories above it, which are made at a given time
where there are none. -/
def put (tree : FileTree) (location : Location) (entry : Entry) (made : Timestamp) : FileTree :=
  (tree.fill made location.tail).set location entry

/-- What the last segment of a path names, slashes at the end left out: the directory it is looked
up in, and its text. The root has no last segment. -/
def lastStep (tree : FileTree) (path : Path) : Except FileFault (Option (Location × String)) :=
  match refusal? path with
  | some fault => .error fault
  | none =>
    match path.segments.reverse.dropWhile (· = "") with
    | [] => .ok none
    | last :: before => do
      let directory ← (tree.start path).bind (tree.walk · before.reverse)
      match tree.entryAt? directory with
      | some ⟨.directory, _⟩ => .ok (some (directory, last))
      | some ⟨.file _, _⟩ => .error .notDirectory
      | none => .error .notFound

/-- Makes one directory, inside one that is there. -/
def makeDirectory (tree : FileTree) (path : Path) (now : Timestamp) :
    Except FileFault FileTree := do
  match ← tree.lastStep path with
  | none => .error .alreadyExists
  | some (directory, last) =>
    if last = "." ∨ last = ".." then .error .alreadyExists
    else
      let location ← child directory last
      match tree.entryAt? location with
      | some _ => .error .alreadyExists
      | none => .ok (tree.set location ⟨.directory, now⟩)

/-- Makes one directory unless it is there. -/
def ensureDirectory (tree : FileTree) (path : Path) (now : Timestamp) :
    FileTree × Option FileFault :=
  match tree.makeDirectory path now with
  | .ok changed => (changed, none)
  | .error fault => (tree, if tree.isDirectory path then none else some fault)

/-- Makes the directory with the given components, the last one first, and those above it. What
was made before a fault stays. -/
def makeDirectories (tree : FileTree) (now : Timestamp) :
    List Path.Component → FileTree × Option FileFault
  | [] => (tree, none)
  | last :: above =>
    let path := Path.ofComponents (last :: above).reverse
    match tree.ensureDirectory path now with
    | (_, some .notFound) =>
      match tree.makeDirectories now above with
      | (changed, some fault) => (changed, some fault)
      | (changed, none) => changed.ensureDirectory path now
    | outcome => outcome

/-- Opens a file to append to it, and makes it if it is not there. -/
def openToAppend (tree : FileTree) (path : Path) (now : Timestamp) :
    Except FileFault (FileTree × Location) := do
  match ← tree.lastStep path with
  | none => .error .isDirectory
  | some (directory, last) =>
    if last = "." ∨ last = ".." ∨ path.text.toList.getLast? = some '/' then .error .isDirectory
    else
      let location ← child directory last
      match tree.entryAt? location with
      | some ⟨.directory, _⟩ => .error .isDirectory
      | some ⟨.file _, _⟩ => .ok (tree, location)
      | none => .ok (tree.set location ⟨.file ByteArray.empty, now⟩, location)

/-- Adds text at the end of the file at a location. Each addition is later than the last. -/
def append (tree : FileTree) (location : Location) (text : String) : FileTree :=
  match tree.entryAt? location with
  | some ⟨.file bytes, modified⟩ =>
    tree.set location
      ⟨.file (bytes ++ text.toUTF8), { modified with nanoseconds := modified.nanoseconds + 1 }⟩
  | _ => tree

theorem entryAt?_set (tree : FileTree) {location : Location} (entry : Entry)
    (h : location ≠ []) (other : Location) :
    (tree.set location entry).entryAt? other =
      if other = location then some entry else tree.entryAt? other := by
  cases other with
  | nil => simp [entryAt?, Ne.symm h]
  | cons name directory => simp [entryAt?, set]

/-- The root is a directory, so a file is elsewhere. -/
theorem ne_root_of_file {tree : FileTree} {location : Location} {bytes : ByteArray}
    {modified : Timestamp} (h : tree.entryAt? location = some ⟨.file bytes, modified⟩) :
    location ≠ [] := by
  rintro rfl
  cases h

/-- Nothing is made in place of the root, which is always there. -/
theorem ne_root_of_absent {tree : FileTree} {location : Location}
    (h : tree.entryAt? location = none) : location ≠ [] := by
  rintro rfl
  cases h

/-- What stands in a file stays in front of the text that is added. -/
theorem entryAt?_append {tree : FileTree} {location : Location} {bytes : ByteArray}
    {modified : Timestamp} (h : tree.entryAt? location = some ⟨.file bytes, modified⟩)
    (text : String) (other : Location) :
    (tree.append location text).entryAt? other =
      if other = location then
        some ⟨.file (bytes ++ text.toUTF8),
          { modified with nanoseconds := modified.nanoseconds + 1 }⟩
      else tree.entryAt? other := by
  rw [append, h, entryAt?_set _ _ (ne_root_of_file h)]

/-- Text is added to a file, or to nothing. -/
theorem file_or_append_eq (tree : FileTree) (location : Location) (text : String) :
    (∃ bytes modified, tree.entryAt? location = some ⟨.file bytes, modified⟩) ∨
      tree.append location text = tree := by
  unfold append
  split
  · rename_i bytes modified h
    exact .inl ⟨bytes, modified, h⟩
  · exact .inr rfl

theorem workingDirectory_append (tree : FileTree) (location : Location) (text : String) :
    (tree.append location text).workingDirectory = tree.workingDirectory := by
  unfold append
  split <;> rfl

end EsmCompletion.FileTree
