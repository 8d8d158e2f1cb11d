import EsmCompletion.Proofs.FileTree.Lookup

/-! # Normal forms lead to the same place

In a tree without links, two dots can be taken away on the text: where a walk from the root has come
to, the stack of a normalization holds the names of that place. So the normal form of an absolute
path that leads somewhere is the path of that place as it is written from the root, and this path
leads there. Other paths may fail where their normal forms do not. -/

namespace EsmCompletion

namespace FileTree

open EsmCompletion.Path (IsName Component pushComponent)

variable {tree : FileTree} {path : Path}

/-! ## Places that their own names lead to -/

/-- A place whose names, one after the other, lead to it from the root. -/
structure Reached (tree : FileTree) (place : Location) : Prop where
  names : ∀ name ∈ place, IsName name ∧ '\x00' ∉ name.toList
  walk : tree.walk [] place.reverse = .ok place

theorem reached_root : tree.Reached [] := ⟨by simp, rfl⟩

theorem child_eq_ok {location place : Location} {name : String}
    (h : child location name = .ok place) : place = name :: location := by
  unfold child at h
  split at h
  · exact (Except.ok.inj h).symm
  · cases h

theorem child_of_step {location next : Location} {name : String} (hn : IsName name)
    (h : tree.step location name = .ok next) : child location name = .ok next := by
  obtain ⟨modified, hd⟩ := directory_of_step h
  simp only [step, hd, hn.nonempty, hn.not_current, hn.not_parent, or_self, if_false] at h
  cases hc : child location name with
  | error fault => rw [hc] at h; cases h
  | ok place =>
    simp only [hc, bind, Except.bind] at h
    split at h
    · cases h
    · exact h

theorem step_name {location next : Location} {name : String} (hn : IsName name)
    (h : tree.step location name = .ok next) : next = name :: location :=
  child_eq_ok (child_of_step hn h)

theorem Reached.above {name : String} {directory : Location}
    (h : tree.Reached (name :: directory)) : tree.Reached directory := by
  have hwalk := h.walk
  rw [List.reverse_cons] at hwalk
  obtain ⟨middle, hw, hs⟩ := walk_snoc hwalk
  have hplace := step_name (h.names name (List.mem_cons_self ..)).1 hs
  obtain rfl : directory = middle := (List.cons.inj hplace).2
  exact ⟨fun other ho => h.names other (List.mem_cons_of_mem _ ho), hw⟩

theorem Reached.child {name : String} {directory : Location} (h : tree.Reached directory)
    (hn : IsName name) (hz : '\x00' ∉ name.toList)
    (hs : tree.step directory name = .ok (name :: directory)) :
    tree.Reached (name :: directory) := by
  refine ⟨fun other ho => ?_, ?_⟩
  · rcases List.mem_cons.1 ho with rfl | ho
    · exact ⟨hn, hz⟩
    · exact h.names other ho
  · rw [List.reverse_cons, walk_append, h.walk, Except.bind, walk_cons, hs]
    rfl

/-! ## Walks and stacks -/

/-- The stack of a normalization that has come to a place. -/
def stackOf (place : Location) : List Component := place.map .normal ++ [.root]

/-- A step goes where the stack goes, and stays among the places that are reached. -/
theorem Reached.step {location next : Location} (h : tree.Reached location) {segment : String}
    (hp : '/' ∉ segment.toList ∧ '\x00' ∉ segment.toList)
    (hs : tree.step location segment = .ok next) :
    tree.Reached next ∧
      (Component.ofSegment? segment).toList.foldl pushComponent (stackOf location) =
        stackOf next := by
  obtain ⟨modified, hd⟩ := directory_of_step hs
  cases hc : Component.ofSegment? segment with
  | none =>
    rw [step_of_skipped hd hc] at hs
    cases hs
    exact ⟨h, rfl⟩
  | some c =>
    have hinner := Component.IsInner.of_segment hc hp.1
    have htext := Path.text_of_ofSegment? hc
    cases c with
    | root | current => exact hinner.elim
    | parent =>
      obtain rfl : ".." = segment := htext
      obtain rfl : location.tail = next := by simpa [FileTree.step, hd] using hs
      cases location with
      | nil => exact ⟨h, rfl⟩
      | cons name directory => exact ⟨h.above, rfl⟩
    | normal name =>
      obtain rfl : name = segment := htext
      obtain rfl := step_name hinner hs
      exact ⟨h.child hinner hp.2 hs, rfl⟩

theorem Reached.after {location place : Location} (h : tree.Reached location)
    {segments : List String}
    (hp : ∀ segment ∈ segments, '/' ∉ segment.toList ∧ '\x00' ∉ segment.toList)
    (hw : tree.walk location segments = .ok place) :
    tree.Reached place ∧
      (segments.filterMap Component.ofSegment?).foldl pushComponent (stackOf location) =
        stackOf place := by
  induction segments generalizing location with
  | nil =>
    cases hw
    exact ⟨h, rfl⟩
  | cons segment rest ih =>
    rw [walk_cons] at hw
    cases hs : tree.step location segment with
    | error fault => rw [hs] at hw; cases hw
    | ok next =>
      rw [hs] at hw
      obtain ⟨hnext, hstack⟩ := h.step (hp segment (List.mem_cons_self ..)) hs
      obtain ⟨hplace, hrest⟩ :=
        ih hnext (fun other ho => hp other (List.mem_cons_of_mem _ ho)) hw
      refine ⟨hplace, ?_⟩
      rw [← hrest, ← hstack, ← List.foldl_append, List.filterMap_cons]
      cases Component.ofSegment? segment <;> rfl

theorem nul_not_mem_segment (h : refusal? path = none) {segment : String}
    (hs : segment ∈ path.segments) : '\x00' ∉ segment.toList := by
  intro hm
  exact (refusal?_eq_none_iff.1 h).1 ((Path.mem_text_iff (by decide)).2 ⟨segment, hs, hm⟩)

/-- An absolute path that leads to a place is written, in its normal form, with the names of that
place. -/
theorem normalize_of_resolve {place : Location} (ha : path.isAbsolute = true)
    (h : tree.resolve path = .ok place) : tree.Reached place ∧ path.normalize = place.path := by
  obtain ⟨hrefused, first, hfirst, hwalk⟩ := resolve_eq_ok.1 h
  obtain rfl : [] = first := Except.ok.inj ((start_of_isAbsolute ha).symm.trans hfirst)
  obtain ⟨hplace, hstack⟩ := reached_root.after
    (fun _ hs => ⟨Path.slash_not_mem_segment hs, nul_not_mem_segment hrefused hs⟩) hwalk
  refine ⟨hplace, ?_⟩
  have hresolved : path.resolved = .root :: place.reverse.map .normal := by
    have hroot : path.bottom = stackOf [] := if_pos ha
    rw [Path.resolved_eq, hroot, Path.inner, hstack]
    simp [stackOf]
  rw [Path.normalize_eq, hresolved]
  rfl

/-! ## The path of a place -/

theorem text_path (place : Location) :
    place.path.text = "/" ++ "/".intercalate place.reverse := by
  simp [Location.path, Path.ofComponents, Component.text, Function.comp_def]

theorem isAbsolute_path (place : Location) : place.path.isAbsolute = true := by
  rw [Path.isAbsolute, text_path, ← Path.isAbsolute]
  exact Path.isAbsolute_slash_append _

theorem segments_path {place : Location} (hne : place ≠ [])
    (h : ∀ name ∈ place, IsName name) : place.path.segments = "" :: place.reverse := by
  rw [Path.segments, text_path, ← Path.segments, Path.segments_slash_append,
    Path.segments_intercalate (by simpa using hne)]
  exact fun name hm => (h name (List.mem_reverse.1 hm)).no_slash

/-- In a working directory, the absolute path is the one that is read from that directory. -/
theorem absolutePath_of_workingDirectory {directory : Location}
    (h : tree.workingDirectory = some directory) (path : Path) :
    tree.absolutePath path = .ok (path.absoluteFrom directory.path) := by
  unfold absolutePath
  split
  · rename_i ha
    rw [Path.absoluteFrom, Path.join_of_isAbsolute ha]
  · rw [workingPath, h]
    rfl

theorem absolutePath_spec {absolute : Path} (h : tree.absolutePath path = .ok absolute) :
    absolute.isAbsolute = true ∧ absolute.IsNormal := by
  unfold absolutePath at h
  split at h
  · rename_i ha
    cases h
    exact ⟨(Path.isAbsolute_normalize path).trans ha, path.isNormal_normalize⟩
  · rw [workingPath] at h
    split at h
    · rename_i location _
      cases h
      exact ⟨Path.isAbsolute_absoluteFrom (isAbsolute_path location) path,
        Path.isNormal_normalize _⟩
    · cases h

/-- The normal form of an absolute path is the path of a place. -/
theorem exists_normalize_eq_path (h : path.isAbsolute = true) :
    ∃ place : Location, (∀ name ∈ place, IsName name) ∧ path.normalize = place.path := by
  obtain ⟨names, hnames, hresolved⟩ := path.exists_resolved_eq
  refine ⟨names.reverse, fun name hn => hnames name (List.mem_reverse.1 hn), ?_⟩
  rw [Path.normalize_eq, hresolved, Path.bottom, if_pos h]
  simp [Location.path]

theorem components_path {place : Location} (h : ∀ name ∈ place, IsName name) :
    place.path.components = .root :: place.reverse.map .normal := by
  refine Path.components_ofComponents (.absolute fun c hc => ?_)
  obtain ⟨name, hn, rfl⟩ := List.mem_map.1 hc
  exact h name (List.mem_reverse.1 hn)

theorem Reached.resolve_path {place : Location} (h : tree.Reached place) :
    tree.resolve place.path = .ok place := by
  by_cases hne : place = []
  · subst hne
    rfl
  · have hsegments := segments_path hne fun name hm => (h.names name hm).1
    refine resolve_eq_ok.2 ⟨refusal?_eq_none_iff.2 ⟨?_, ?_⟩, [],
      start_of_isAbsolute (isAbsolute_path place), ?_⟩
    · rw [Path.mem_text_iff (by decide), hsegments]
      rintro ⟨segment, hs, hm⟩
      rcases List.mem_cons.1 hs with rfl | hs
      · cases hm
      · exact (h.names segment (List.mem_reverse.1 hs)).2 hm
    · rw [text_path]
      simp
    · rw [hsegments, walk_cons]
      exact h.walk

/-- Where an absolute path leads somewhere, its normal form leads to the same place. -/
theorem resolve_normalize {place : Location} (ha : path.isAbsolute = true)
    (h : tree.resolve path = .ok place) : tree.resolve path.normalize = .ok place := by
  obtain ⟨hplace, hnormal⟩ := normalize_of_resolve ha h
  rw [hnormal]
  exact hplace.resolve_path

end FileTree

end EsmCompletion
