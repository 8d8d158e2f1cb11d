import EsmCompletion.Proofs.FileTree.Growth
import EsmCompletion.Proofs.Log.Frame

/-! # What a log leaves behind

Opening a log and writing to it touches no file but the log. New directories lie above the log file,
and what the log file held before is the beginning of what it holds afterwards. The relation is kept
by each step of the opening and by each line, and such steps can be put together. -/

namespace EsmCompletion

namespace FileTree

/-- What may have become of the entry at a place, for the sake of a log. -/
inductive Kept (log : Path) (tree other : FileTree) (place : Location) : Prop
  | same : other.entryAt? place = tree.entryAt? place → Kept log tree other place
  | made {front : List Path.Component} {modified : Timestamp} :
      tree.entryAt? place = none → other.entryAt? place = some ⟨.directory, modified⟩ →
      front <+: log.components.dropLast → other.resolve (.ofComponents front) = .ok place →
      Kept log tree other place
  | created {bytes : ByteArray} {modified : Timestamp} :
      tree.entryAt? place = none → other.entryAt? place = some ⟨.file bytes, modified⟩ →
      other.resolve log = .ok place → Kept log tree other place
  | extended {bytes added : ByteArray} {modified modified' : Timestamp} :
      tree.entryAt? place = some ⟨.file bytes, modified⟩ →
      other.entryAt? place = some ⟨.file (bytes ++ added), modified'⟩ →
      other.resolve log = .ok place → Kept log tree other place

/-- Nothing but a log and the directories above it has changed, and the log has grown at most. -/
structure LogsOnly (log : Path) (tree other : FileTree) : Prop where
  workingDirectory : other.workingDirectory = tree.workingDirectory
  kept : ∀ place, Kept log tree other place

namespace LogsOnly

variable {log : Path} {tree other third : FileTree} {location : Location}

theorem refl (log : Path) (tree : FileTree) : LogsOnly log tree tree :=
  ⟨rfl, fun _ => .same rfl⟩

theorem grows (h : LogsOnly log tree other) : tree.Grows other := by
  refine ⟨h.workingDirectory, fun place content modified he => ?_⟩
  cases h.kept place with
  | same hs => exact ⟨content, modified, hs.trans he, id⟩
  | made hn | created hn => rw [hn] at he; cases he
  | extended hb hb' =>
    rw [hb] at he
    cases he
    exact ⟨_, _, hb', nofun⟩

theorem trans (h : LogsOnly log tree other) (h' : LogsOnly log other third) :
    LogsOnly log tree third := by
  refine ⟨h'.workingDirectory.trans h.workingDirectory, fun place => ?_⟩
  -- what the first step has made or written, the second leaves there, and it may write more
  cases h.kept place with
  | same hs =>
    cases h'.kept place with
    | same hs' => exact .same (hs'.trans hs)
    | made hn he hfront hr => exact .made (hs ▸ hn) he hfront hr
    | created hn he hr => exact .created (hs ▸ hn) he hr
    | extended hb hb' hr => exact .extended (hs ▸ hb) hb' hr
  | made hn he hfront hr =>
    cases h'.kept place with
    | same hs' => exact .made hn (hs'.trans he) hfront (h'.grows.resolve hr)
    | made hn' | created hn' => rw [he] at hn'; cases hn'
    | extended hb => rw [he] at hb; cases hb
  | created hn he hr =>
    cases h'.kept place with
    | same hs' => exact .created hn (hs'.trans he) (h'.grows.resolve hr)
    | made hn' | created hn' => rw [he] at hn'; cases hn'
    | extended _ hb' hr' => exact .created hn hb' hr'
  | extended hb hb' hr =>
    cases h'.kept place with
    | same hs' => exact .extended hb (hs'.trans hb') (h'.grows.resolve hr)
    | made hn' | created hn' => rw [hb'] at hn'; cases hn'
    | extended hm hm' hr' =>
      rw [hb'] at hm
      cases hm
      rw [ByteArray.append_assoc] at hm'
      exact .extended hb hm' hr'

/-! ## Opening -/

theorem of_made {front : List Path.Component} (hfront : front <+: log.components.dropLast)
    {now : Timestamp} (h : tree.Adds (.ofComponents front) location ⟨.directory, now⟩ other) :
    LogsOnly log tree other := by
  refine ⟨h.workingDirectory, fun place => ?_⟩
  rcases h.entryAt?_cases place with ⟨rfl, he⟩ | he
  · exact .made h.absent he hfront h.found
  · exact .same he

theorem of_created {now : Timestamp}
    (h : tree.Adds log location ⟨.file ByteArray.empty, now⟩ other) : LogsOnly log tree other := by
  refine ⟨h.workingDirectory, fun place => ?_⟩
  rcases h.entryAt?_cases place with ⟨rfl, he⟩ | he
  · exact .created h.absent he h.found
  · exact .same he

theorem ensureDirectory (tree : FileTree) {front : List Path.Component}
    (hfront : front <+: log.components.dropLast) (now : Timestamp) :
    LogsOnly log tree (tree.ensureDirectory (.ofComponents front) now).1 := by
  unfold FileTree.ensureDirectory
  cases hm : tree.makeDirectory (.ofComponents front) now with
  | error fault => exact .refl log tree
  | ok changed =>
    obtain ⟨location, hadds⟩ := makeDirectory_eq_ok hm
    exact of_made hfront hadds

theorem makeDirectories (now : Timestamp) (components : List Path.Component)
    (hfront : components.reverse <+: log.components.dropLast) (tree : FileTree) :
    LogsOnly log tree (tree.makeDirectories now components).1 := by
  induction components generalizing tree with
  | nil => exact .refl log tree
  | cons last above ih =>
    have habove : above.reverse <+: log.components.dropLast := by
      rw [List.reverse_cons] at hfront
      exact (List.prefix_append _ _).trans hfront
    unfold FileTree.makeDirectories
    simp only
    split
    · have hrest := ih habove tree
      split
      · rename_i hchanged
        rwa [hchanged] at hrest
      · rename_i hchanged
        rw [hchanged] at hrest
        exact hrest.trans (.ensureDirectory _ hfront now)
    · exact .ensureDirectory tree hfront now

/-- A log is opened in a tree, and is found under its path afterwards. -/
structure Opens (log : Path) (tree : FileTree) (opened : FileTree × Except FileFault Location) :
    Prop where
  logsOnly : LogsOnly log tree opened.1
  found : ∀ location, opened.2 = .ok location → opened.1.resolve log = .ok location

theorem opens_of_fault (h : LogsOnly log tree other) (fault : FileFault) :
    Opens log tree (other, .error fault) :=
  ⟨h, nofun⟩

/-- Once the directories above a log are there, the log itself is opened. -/
theorem opens_of_above (h : LogsOnly log tree other) (now : Timestamp) :
    Opens log tree (match other.openToAppend log now with
      | .error fault => (other, .error fault)
      | .ok (changed, location) => (changed, .ok location)) := by
  cases hopen : other.openToAppend log now with
  | error fault => exact opens_of_fault h fault
  | ok opened =>
    obtain ⟨changed, location⟩ := opened
    rcases openToAppend_eq_ok hopen with ⟨rfl, hr⟩ | hadds
    · exact ⟨h, fun place hp => Except.ok.inj hp ▸ hr⟩
    · exact ⟨h.trans (of_created hadds), fun place hp => Except.ok.inj hp ▸ hadds.found⟩

theorem opens_openFile (log : Path) (tree : FileTree) (now : Timestamp) :
    Opens log tree (Log.openFile tree log now) := by
  unfold Log.openFile
  cases hd : log.parent? with
  | none => exact opens_of_above (.refl log tree) now
  | some directory =>
    have habove : LogsOnly log tree
        (tree.makeDirectories now directory.components.reverse).1 := by
      refine .makeDirectories now _ ?_ tree
      simp only [List.reverse_reverse, Path.components_of_parent? hd, List.prefix_rfl]
    revert habove
    simp only
    generalize tree.makeDirectories now directory.components.reverse = prepared
    intro habove
    obtain ⟨ready, fault⟩ := prepared
    cases fault with
    | some fault => exact opens_of_fault habove fault
    | none => exact opens_of_above habove now

/-! ## Writing -/

theorem append (h : tree.resolve log = .ok location) (text : String) :
    LogsOnly log tree (tree.append location text) := by
  have hr : (tree.append location text).resolve log = .ok location := by
    rw [(SameBesides.append tree location text).resolve_eq, h]
  rcases file_or_append_eq tree location text with ⟨bytes, modified, he⟩ | hkeep
  · refine ⟨workingDirectory_append tree location text, fun place => ?_⟩
    have hadded := entryAt?_append he text place
    by_cases hp : place = location
    · subst hp
      rw [if_pos rfl] at hadded
      exact .extended he hadded hr
    · rw [if_neg hp] at hadded
      exact .same hadded
  · rw [hkeep]
    exact .refl log tree

/-! ## Files that are not the log -/

variable {path : Path}

/-- A path in normal form that is not the log leads to the same files as before. -/
theorem find_file_iff (h : LogsOnly log tree other) (ht : tree.IsTree)
    (habsolute : path.isAbsolute = true) (hnormal : path.IsNormal)
    (ha : ∀ place, other.resolve log = .ok place → other.resolve path ≠ .ok place)
    {bytes : ByteArray} {modified : Timestamp} :
    other.find path = .ok ⟨.file bytes, modified⟩ ↔
      tree.find path = .ok ⟨.file bytes, modified⟩ := by
  rw [find_eq_ok, find_eq_ok]
  constructor
  · rintro ⟨place, hr, he⟩
    obtain ⟨hplace, hwritten⟩ := normalize_of_resolve habsolute hr
    cases h.kept place with
    | same hs =>
      rw [hs] at he
      refine ⟨place, ?_, he⟩
      rw [← hnormal, hwritten]
      exact (ht.reached hplace he).resolve_path
    | made _ hd =>
      rw [hd] at he
      cases he
    | created _ _ hlog | extended _ _ hlog => exact absurd hr (ha place hlog)
  · rintro ⟨place, hr, he⟩
    have hr' := h.grows.resolve hr
    refine ⟨place, hr', ?_⟩
    cases h.kept place with
    | same hs => exact hs.trans he
    | made hn | created hn =>
      rw [hn] at he
      cases he
    | extended _ _ hlog => exact absurd hr' (ha place hlog)

theorem readText_iff (h : LogsOnly log tree other) (ht : tree.IsTree)
    (habsolute : path.isAbsolute = true) (hnormal : path.IsNormal)
    (ha : ∀ place, other.resolve log = .ok place → other.resolve path ≠ .ok place)
    {text : String} : other.readText path = .ok text ↔ tree.readText path = .ok text := by
  simp only [readText_eq_ok, HasText, h.find_file_iff ht habsolute hnormal ha]

end LogsOnly

end FileTree

namespace Log.Journal

variable {journal : Journal} {log : Path} {tree other : FileTree}

/-- What a journal writes goes to the file under a path. -/
def WritesTo (journal : Journal) (log : Path) (tree : FileTree) : Prop :=
  ∀ location, journal.file = some location → tree.resolve log = .ok location

theorem WritesTo.grow (h : journal.WritesTo log tree) (hg : tree.Grows other) :
    journal.WritesTo log other :=
  fun location hf => hg.resolve (h location hf)

theorem WritesTo.write (h : journal.WritesTo log tree) (event : Event) :
    FileTree.LogsOnly log tree (journal.write tree event) := by
  unfold Journal.write
  cases hf : journal.file with
  | none => exact .refl log tree
  | some location =>
    simp only
    split
    · exact .append (h location hf) _
    · exact .refl log tree

theorem WritesTo.writeAll (h : journal.WritesTo log tree) (events : List Event) :
    FileTree.LogsOnly log tree (journal.writeAll tree events) := by
  induction events generalizing tree with
  | nil => exact .refl log tree
  | cons event rest ih =>
    have hfirst := h.write event
    exact hfirst.trans (ih (h.grow hfirst.grows))

end Log.Journal

end EsmCompletion
