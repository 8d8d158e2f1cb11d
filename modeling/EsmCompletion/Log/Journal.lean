import EsmCompletion.FileTree.Change
import EsmCompletion.Log.Filter

/-!
The log file. It is made when it is opened, with the directories above it, and every event that
passes the filter adds its line at the end.
-/

namespace EsmCompletion.Log

/-- Where events are written, and which of them. A log that could not be opened takes none. -/
structure Journal where
  filter : Filter
  file : Option Location

/-- Opens a log file. What was made before a fault stays. -/
def openFile (tree : FileTree) (path : Path) (now : Timestamp) :
    FileTree × Except FileFault Location :=
  let (tree, fault) := match path.parent? with
    | none => (tree, none)
    | some directory => tree.makeDirectories now directory.components.reverse
  match fault with
  | some fault => (tree, .error fault)
  | none =>
    match tree.openToAppend path now with
    | .error fault => (tree, .error fault)
    | .ok (changed, location) => (changed, .ok location)

namespace Journal

def write (journal : Journal) (tree : FileTree) (event : Event) : FileTree :=
  match journal.file with
  | none => tree
  | some location =>
    if journal.filter.passes event then tree.append location (event.line ++ "\n") else tree

def writeAll (journal : Journal) (tree : FileTree) (events : List Event) : FileTree :=
  events.foldl journal.write tree

end Journal

end EsmCompletion.Log
