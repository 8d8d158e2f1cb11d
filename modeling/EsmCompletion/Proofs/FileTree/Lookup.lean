import EsmCompletion.FileTree.Change
import EsmCompletion.Proofs.Path.NormalForm

/-! # What a path leads to

The lookup of a path is a walk and a look at the entry it ends at. A file is reached only by a
path that ends in a name, and then every other spelling of the same components that ends in a name
reaches the same file: empty segments and single dots in between change nothing. -/

namespace EsmCompletion

theorem fromUTF8?_toUTF8 (text : String) : String.fromUTF8? text.toUTF8 = some text := by
  unfold String.fromUTF8?
  exact dif_pos text.isValidUTF8

namespace FileTree

variable {tree : FileTree} {path : Path}

/-! ## Lookup in steps -/

theorem bind_eq_ok {ε α β : Type} {x : Except ε α} {f : α → Except ε β} {b : β} :
    x.bind f = .ok b ↔ ∃ a, x = .ok a ∧ f a = .ok b := by
  cases x <;> simp [Except.bind]

theorem start_of_isAbsolute (h : path.isAbsolute = true) : tree.start path = .ok [] := if_pos h

theorem resolve_eq_ok {location : Location} :
    tree.resolve path = .ok location ↔
      refusal? path = none ∧
        ∃ first, tree.start path = .ok first ∧ tree.walk first path.segments = .ok location := by
  unfold resolve
  cases refusal? path with
  | some fault => simp
  | none => simp [bind_eq_ok]

theorem find_eq_ok {entry : Entry} :
    tree.find path = .ok entry ↔
      ∃ location, tree.resolve path = .ok location ∧ tree.entryAt? location = some entry := by
  unfold find
  cases hr : tree.resolve path with
  | error fault => simp [bind, Except.bind]
  | ok location => cases he : tree.entryAt? location <;> simp [bind, Except.bind, he]

theorem absolutePath_congr {other : FileTree}
    (h : other.workingDirectory = tree.workingDirectory) (path : Path) :
    other.absolutePath path = tree.absolutePath path := by
  rw [absolutePath, absolutePath, workingPath, workingPath, h]

/-- A path leads to a file whose bytes are a text. -/
def HasText (tree : FileTree) (path : Path) (modified : Timestamp) (text : String) : Prop :=
  ∃ bytes, tree.find path = .ok ⟨.file bytes, modified⟩ ∧ String.fromUTF8? bytes = some text

theorem readText_of_find {entry : Entry} (h : tree.find path = .ok entry) :
    tree.readText path =
      match entry.content with
      | .directory => .error .isDirectory
      | .file bytes =>
        match String.fromUTF8? bytes with
        | none => .error .notText
        | some text => .ok text := by
  obtain ⟨content, modified⟩ := entry
  unfold readText
  rw [h]
  cases content <;> rfl

theorem HasText.readText {modified : Timestamp} {text : String}
    (h : tree.HasText path modified text) : tree.readText path = .ok text := by
  obtain ⟨bytes, hf, ht⟩ := h
  simp [readText_of_find hf, ht]

theorem hasText_of_readText {entry : Entry} {text : String} (h : tree.find path = .ok entry)
    (hr : tree.readText path = .ok text) : tree.HasText path entry.modified text := by
  obtain ⟨content, modified⟩ := entry
  rw [readText_of_find h] at hr
  cases content with
  | directory => cases hr
  | file bytes =>
    refine ⟨bytes, h, ?_⟩
    simp only at hr
    split at hr
    · cases hr
    · rename_i ht
      rw [ht, Except.ok.inj hr]

theorem readText_eq_ok {text : String} :
    tree.readText path = .ok text ↔ ∃ modified, tree.HasText path modified text := by
  refine ⟨fun h => ?_, fun ⟨modified, h⟩ => h.readText⟩
  cases hf : tree.find path with
  | error fault =>
    rw [readText, hf] at h
    cases h
  | ok entry => exact ⟨entry.modified, hasText_of_readText hf h⟩

/-- A path that can be looked up is never read as missing. -/
theorem readText_ne_notFound {entry : Entry} (h : tree.find path = .ok entry) :
    tree.readText path ≠ .error .notFound := by
  obtain ⟨content, modified⟩ := entry
  rw [readText_of_find h]
  cases content with
  | directory => nofun
  | file bytes => simp only; split <;> nofun

/-! ## Walks -/

theorem walk_append (location : Location) (before after : List String) :
    tree.walk location (before ++ after) =
      (tree.walk location before).bind (tree.walk · after) := by
  simp only [walk, List.foldlM_append]
  rfl

theorem walk_snoc {start place : Location} {segments : List String} {last : String}
    (h : tree.walk start (segments ++ [last]) = .ok place) :
    ∃ middle, tree.walk start segments = .ok middle ∧ tree.step middle last = .ok place := by
  rw [walk_append] at h
  cases hw : tree.walk start segments with
  | error fault => rw [hw] at h; cases h
  | ok middle =>
    rw [hw, Except.bind, walk_cons] at h
    refine ⟨middle, rfl, ?_⟩
    cases hs : tree.step middle last with
    | error fault => rw [hs] at h; cases h
    | ok next => rw [hs] at h; exact h

theorem step_of_none {location : Location} (h : tree.entryAt? location = none)
    (segment : String) : tree.step location segment = .error .notFound := by
  simp [step, h]

theorem step_of_file {location : Location} {bytes : ByteArray} {modified : Timestamp}
    (h : tree.entryAt? location = some ⟨.file bytes, modified⟩) (segment : String) :
    tree.step location segment = .error .notDirectory := by
  simp [step, h]

/-- Segments that name no component stay where they are. -/
theorem step_of_skipped {location : Location} {modified : Timestamp} {segment : String}
    (h : tree.entryAt? location = some ⟨.directory, modified⟩)
    (hs : Path.Component.ofSegment? segment = none) :
    tree.step location segment = .ok location := by
  have hskip : segment = "" ∨ segment = "." := by
    unfold Path.Component.ofSegment? at hs
    split at hs
    · assumption
    · split at hs <;> cases hs
  simp [step, h, hskip]

theorem directory_of_step {location next : Location} {segment : String}
    (h : tree.step location segment = .ok next) :
    ∃ modified, tree.entryAt? location = some ⟨.directory, modified⟩ := by
  cases he : tree.entryAt? location with
  | none => rw [step_of_none he] at h; cases h
  | some entry =>
    obtain ⟨content, modified⟩ := entry
    cases content with
    | directory => exact ⟨modified, rfl⟩
    | file bytes => rw [step_of_file he] at h; cases h

/-- A walk whose last segment counts goes where its counted segments lead. Where a skipped segment
would be refused, so is the next one that counts. -/
theorem walk_counted (location : Location) (segments : List String) {last : String}
    (hlast : segments.getLast? = some last)
    (hc : (Path.Component.ofSegment? last).isSome = true) :
    tree.walk location segments = tree.walk location (Path.counted segments) := by
  induction segments generalizing location with
  | nil => simp at hlast
  | cons segment rest ih =>
    cases rest with
    | nil =>
      obtain rfl : segment = last := by simpa using hlast
      rw [Path.counted_cons, if_pos hc]
      rfl
    | cons second rest =>
      have hrest : (second :: rest).getLast? = some last := by simpa using hlast
      rw [Path.counted_cons]
      split
      · rw [walk_cons, walk_cons]
        exact congrArg _ (funext fun next => ih next hrest)
      · rename_i hskip
        have hnone : Path.Component.ofSegment? segment = none := by simpa using hskip
        obtain ⟨next, others, hne⟩ :
            ∃ next others, Path.counted (second :: rest) = next :: others := by
          refine List.exists_cons_of_ne_nil fun hnil => ?_
          have hm := List.mem_of_getLast? hrest
          exact absurd hc (List.filter_eq_nil_iff.1 hnil last hm)
        cases he : tree.entryAt? location with
        | none => rw [walk_cons, hne, walk_cons, step_of_none he, step_of_none he]; rfl
        | some entry =>
          obtain ⟨content, modified⟩ := entry
          cases content with
          | directory => rw [walk_cons, step_of_skipped he hnone, ← ih location hrest]; rfl
          | file bytes => rw [walk_cons, hne, walk_cons, step_of_file he, step_of_file he]; rfl

/-! ## Files are reached by name -/

/-- A tree in which everything lies in a directory. -/
def IsTree (tree : FileTree) : Prop :=
  ∀ name directory entry, tree.entryAt? (name :: directory) = some entry →
    ∃ modified, tree.entryAt? directory = some ⟨.directory, modified⟩

theorem isTree_empty : IsTree empty := by
  intro name directory entry h
  cases h

theorem IsTree.entryAt?_below (ht : tree.IsTree) {location : Location}
    (hn : tree.entryAt? location = none) (name : String) :
    tree.entryAt? (name :: location) = none := by
  cases he : tree.entryAt? (name :: location) with
  | none => rfl
  | some entry =>
    obtain ⟨modified, hd⟩ := ht name location entry he
    rw [hn] at hd
    cases hd

/-- A tree stays one when an entry is added in a directory. -/
theorem IsTree.set (ht : tree.IsTree) {name : String} {directory : Location}
    {modified : Timestamp} (hd : tree.entryAt? directory = some ⟨.directory, modified⟩)
    (hn : tree.entryAt? (name :: directory) = none) (entry : Entry) :
    (tree.set (name :: directory) entry).IsTree := by
  intro last above found hf
  rw [entryAt?_set _ _ (List.cons_ne_nil _ _)] at hf ⊢
  split at hf
  · rename_i he
    cases he
    rw [if_neg (List.cons_ne_self _ _).symm]
    exact ⟨modified, hd⟩
  · by_cases ha : above = name :: directory
    · rw [ha, ht.entryAt?_below hn] at hf
      cases hf
    · rw [if_neg ha]
      exact ht last above found hf

/-- A tree with one module in one directory, of a given text and time. -/
def oneModule (text : String) (modified : Timestamp) : FileTree :=
  (empty.set ["m"] ⟨.directory, ⟨1, 0⟩⟩).set ["a.js", "m"] ⟨.file text.toUTF8, modified⟩

theorem isTree_oneModule (text : String) (modified : Timestamp) :
    (oneModule text modified).IsTree := by
  have hm : (empty.set ["m"] ⟨.directory, ⟨1, 0⟩⟩).entryAt? ["m"] =
      some ⟨.directory, ⟨1, 0⟩⟩ := rfl
  exact (isTree_empty.set rfl rfl _).set hm rfl _

theorem hasText_oneModule (text : String) (modified : Timestamp) :
    (oneModule text modified).HasText ⟨"/m/a.js"⟩ modified text :=
  ⟨text.toUTF8, rfl, fromUTF8?_toUTF8 text⟩

/-- A step that ends at a file is a step to a name: every other segment leads to a directory. -/
theorem IsTree.isName_of_step (ht : tree.IsTree) {location place : Location} {segment : String}
    {bytes : ByteArray} {modified : Timestamp} (hslash : '/' ∉ segment.toList)
    (hs : tree.step location segment = .ok place)
    (hf : tree.entryAt? place = some ⟨.file bytes, modified⟩) : Path.IsName segment := by
  obtain ⟨time, hd⟩ := directory_of_step hs
  cases hc : Path.Component.ofSegment? segment with
  | none =>
    rw [step_of_skipped hd hc] at hs
    cases hs
    rw [hd] at hf
    cases hf
  | some c =>
    have hinner := Path.Component.IsInner.of_segment hc hslash
    have htext := Path.text_of_ofSegment? hc
    cases c with
    | root | current => exact hinner.elim
    | normal name =>
      obtain rfl : name = segment := htext
      exact hinner
    | parent =>
      obtain rfl : ".." = segment := htext
      obtain rfl : location.tail = place := by simpa [step, hd] using hs
      -- the place is above the location, and what holds an entry is a directory
      cases location with
      | nil => cases hf
      | cons name directory =>
        obtain ⟨time', hd'⟩ := ht name directory _ hd
        rw [List.tail_cons, hd'] at hf
        cases hf

theorem IsTree.endsInName_of_find (ht : tree.IsTree) {bytes : ByteArray} {modified : Timestamp}
    (h : tree.find path = .ok ⟨.file bytes, modified⟩) : path.EndsInName := by
  obtain ⟨place, hr, hf⟩ := find_eq_ok.1 h
  have hsegments := List.dropLast_concat_getLast path.segments_ne_nil
  obtain ⟨-, first, -, hwalk⟩ := resolve_eq_ok.1 hr
  rw [← hsegments] at hwalk
  obtain ⟨middle, -, hstep⟩ := walk_snoc hwalk
  have hslash := Path.slash_not_mem_segment (List.getLast_mem path.segments_ne_nil)
  exact ⟨_, ht.isName_of_step hslash hstep hf, List.getLast?_eq_some_getLast _⟩

/-! ## Other spellings of a path -/

theorem refusal?_eq_none_iff :
    refusal? path = none ↔ '\x00' ∉ path.text.toList ∧ path.text ≠ "" := by
  unfold refusal?
  split
  · simp_all
  · split <;> simp_all

theorem refusal?_of_components {other : Path} (hc : path.components = other.components)
    (ho : other.EndsInName) (h : refusal? path = none) : refusal? other = none := by
  rw [refusal?_eq_none_iff] at h ⊢
  constructor
  · rw [Path.mem_text_iff_counted (by decide) (by decide), ← Path.counted_of_components hc,
      ← Path.mem_text_iff_counted (by decide) (by decide)]
    exact h.1
  · intro hempty
    obtain ⟨name, hname, hlast⟩ := ho
    have : other = ⟨""⟩ := by cases other; simp_all
    subst this
    exact hname.nonempty (by simpa [Path.segments] using hlast.symm)

theorem walk_of_endsInName (location : Location) (hp : path.EndsInName) :
    tree.walk location path.segments = tree.walk location (Path.counted path.segments) := by
  obtain ⟨name, hname, hlast⟩ := hp
  exact walk_counted location path.segments hlast (by rw [hname.ofSegment?]; rfl)

/-- Two spellings of the same components that end in a name lead to the same place. -/
theorem find_of_components {other : Path} (hc : path.components = other.components)
    (hp : path.EndsInName) (ho : other.EndsInName) {entry : Entry}
    (h : tree.find path = .ok entry) : tree.find other = .ok entry := by
  obtain ⟨place, hr, he⟩ := find_eq_ok.1 h
  obtain ⟨hrefused, first, hfirst, hwalk⟩ := resolve_eq_ok.1 hr
  have hstart : tree.start other = tree.start path := by
    rw [start, start, Path.isAbsolute_of_components hc]
  refine find_eq_ok.2 ⟨place, resolve_eq_ok.2 ⟨refusal?_of_components hc ho hrefused, first,
    hstart.trans hfirst, ?_⟩, he⟩
  rw [walk_of_endsInName _ ho, ← Path.counted_of_components hc, ← walk_of_endsInName _ hp]
  exact hwalk

end FileTree

end EsmCompletion
