import EsmCompletion.Exports
import EsmCompletion.FileTree.Basic

/-!
Why the exports of a file cannot be listed.
-/

namespace EsmCompletion

/-- Why the exports of a module file are not known. -/
inductive ModuleFault where
  | unknownTime (path : Path) (fault : FileFault)
  | unreadable (path : Path) (fault : FileFault)
  | source (error : SourceError)
  deriving DecidableEq, Repr

def ModuleFault.message : ModuleFault → String
  | unknownTime path fault => "Failed to stat " ++ path.text ++ ": " ++ fault.message
  | unreadable path fault => "Failed to read " ++ path.text ++ ": " ++ fault.message
  | source error => error.message

/-- Why the exports of a file that is read without a cache are not known. -/
inductive ListingFault where
  | unreadable (fault : FileFault)
  | source (error : SourceError)
  deriving DecidableEq, Repr

def ListingFault.message : ListingFault → String
  | unreadable fault => "Failed to read file: " ++ fault.message
  | source error => error.message

/-- The exports of a module file, read without a cache. -/
def exportsOfFile (tree : FileTree) (path : Path) : Except ListingFault ExportMap :=
  match tree.readText path with
  | .error fault => .error (.unreadable fault)
  | .ok text => (exportsOf text path.shownName).mapError .source

end EsmCompletion
