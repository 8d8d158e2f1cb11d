import EsmCompletion.Log.Journal
import EsmCompletion.ModuleCache
import EsmCompletion.Proofs.FileTree.Lookup

/-! # Logging changes one file

Writing to a log leaves a tree that differs from the old one in what the log file holds and in its
time. All walks lead where they led, so a path that does not lead to the log file is looked up,
read and fetched as before. -/

namespace EsmCompletion

namespace FileTree

/-- Two trees that differ at most in the content and the time of one file. -/
structure SameBesides (file : Option Location) (tree other : FileTree) : Prop where
  workingDirectory : other.workingDirectory = tree.workingDirectory
  entries : ∀ place, other.entryAt? place = tree.entryAt? place ∨
    file = some place ∧ ∃ bytes bytes' modified modified',
      tree.entryAt? place = some ⟨.file bytes, modified⟩ ∧
        other.entryAt? place = some ⟨.file bytes', modified'⟩

/-- A path that does not lead to a file. -/
def Avoids (tree : FileTree) (file : Option Location) (path : Path) : Prop :=
  ∀ location, file = some location → tree.resolve path ≠ .ok location

namespace SameBesides

variable {file : Option Location} {tree other third : FileTree} {path : Path}

theorem refl (file : Option Location) (tree : FileTree) : SameBesides file tree tree :=
  ⟨rfl, fun _ => .inl rfl⟩

theorem trans (h : SameBesides file tree other) (h' : SameBesides file other third) :
    SameBesides file tree third := by
  refine ⟨h'.workingDirectory.trans h.workingDirectory, fun place => ?_⟩
  rcases h'.entries place with he' | ⟨hf, bytes, bytes', modified, modified', hb, hb'⟩
  · rw [he']
    exact h.entries place
  · refine .inr ⟨hf, ?_⟩
    rcases h.entries place with he | ⟨-, first, _, time, _, ht, -⟩
    · exact ⟨bytes, bytes', modified, modified', he ▸ hb, hb'⟩
    · exact ⟨first, bytes', time, modified', ht, hb'⟩

/-! ## Lookups -/

theorem step_eq (h : SameBesides file tree other) (location : Location) (segment : String) :
    other.step location segment = tree.step location segment := by
  unfold step
  rcases h.entries location with he | ⟨-, _, _, _, _, hb, hb'⟩
  · rw [he]
    cases tree.entryAt? location with
    | none => rfl
    | some entry =>
      obtain ⟨content, modified⟩ := entry
      cases content with
      | file bytes => rfl
      | directory =>
        simp only
        split
        · rfl
        · split
          · rfl
          · refine congrArg (child location segment).bind (funext fun next => ?_)
            rcases h.entries next with hn | ⟨-, _, _, _, _, hn, hn'⟩
            · rw [hn]
            · rw [hn, hn']
  · rw [hb, hb']

theorem walk_eq (h : SameBesides file tree other) (location : Location)
    (segments : List String) : other.walk location segments = tree.walk location segments := by
  induction segments generalizing location with
  | nil => rfl
  | cons segment rest ih =>
    rw [walk_cons, walk_cons, h.step_eq]
    exact congrArg _ (funext ih)

theorem resolve_eq (h : SameBesides file tree other) (path : Path) :
    other.resolve path = tree.resolve path := by
  unfold resolve
  simp only [start, h.workingDirectory, h.walk_eq]

theorem find_eq (h : SameBesides file tree other) (ha : tree.Avoids file path) :
    other.find path = tree.find path := by
  unfold find
  rw [h.resolve_eq]
  cases hr : tree.resolve path with
  | error fault => rfl
  | ok location =>
    rcases h.entries location with he | ⟨hf, -⟩
    · simp only [bind, Except.bind, he]
    · exact absurd hr (ha location hf)

theorem readText_eq (h : SameBesides file tree other) (ha : tree.Avoids file path) :
    other.readText path = tree.readText path := by
  rw [readText, readText, h.find_eq ha]

theorem exports_eq (h : SameBesides file tree other) (ha : tree.Avoids file path)
    (cache : ModuleCache) : cache.exports other path = cache.exports tree path := by
  simp only [ModuleCache.exports, ModuleCache.reload, h.find_eq ha, h.readText_eq ha]

/-! ## Writing -/

theorem append (tree : FileTree) (location : Location) (text : String) :
    SameBesides (some location) tree (tree.append location text) := by
  rcases file_or_append_eq tree location text with ⟨bytes, modified, he⟩ | hkeep
  · refine ⟨workingDirectory_append tree location text, fun place => ?_⟩
    rw [entryAt?_append he]
    split
    · rename_i hp
      exact .inr ⟨by rw [hp], bytes, _, modified, _, by rw [hp, he], rfl⟩
    · exact .inl rfl
  · rw [hkeep]
    exact .refl _ _

end SameBesides

end FileTree

namespace Log.Journal

theorem write_sameBesides (journal : Journal) (tree : FileTree) (event : Event) :
    FileTree.SameBesides journal.file tree (journal.write tree event) := by
  unfold write
  cases hf : journal.file with
  | none => exact .refl _ _
  | some location =>
    simp only
    split
    · exact .append tree location _
    · exact .refl _ _

theorem writeAll_sameBesides (journal : Journal) (tree : FileTree) (events : List Event) :
    FileTree.SameBesides journal.file tree (journal.writeAll tree events) := by
  induction events generalizing tree with
  | nil => exact .refl _ _
  | cons event rest ih => exact (journal.write_sameBesides tree event).trans (ih _)

end Log.Journal

end EsmCompletion
