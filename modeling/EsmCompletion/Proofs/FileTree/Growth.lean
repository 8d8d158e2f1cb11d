import EsmCompletion.Proofs.FileTree.NormalForm
import Mathlib.Data.List.TakeWhile

/-! # Trees that grow

Where entries are added to a tree and directories stay directories, every path leads where it led
before. What is made at the last step of a path is found under that path afterwards. -/

namespace EsmCompletion.FileTree

open EsmCompletion.Path (IsName Component)

/-- A tree has all entries of another one, and its directories are directories there. -/
structure Grows (tree other : FileTree) : Prop where
  workingDirectory : other.workingDirectory = tree.workingDirectory
  entries : ∀ place content modified, tree.entryAt? place = some ⟨content, modified⟩ →
    ∃ content' modified', other.entryAt? place = some ⟨content', modified'⟩ ∧
      (content = .directory → content' = .directory)

variable {tree other : FileTree} {path : Path} {location place : Location}

theorem Grows.refl (tree : FileTree) : tree.Grows tree :=
  ⟨rfl, fun _ content modified he => ⟨content, modified, he, id⟩⟩

/-! ## Walks in a grown tree -/

theorem Grows.directory (h : tree.Grows other) {modified : Timestamp}
    (hd : tree.entryAt? location = some ⟨.directory, modified⟩) :
    ∃ modified', other.entryAt? location = some ⟨.directory, modified'⟩ := by
  obtain ⟨content, modified', he, hcontent⟩ := h.entries location _ _ hd
  rw [hcontent rfl] at he
  exact ⟨modified', he⟩

theorem Grows.step (h : tree.Grows other) {segment : String}
    (hs : tree.step location segment = .ok place) : other.step location segment = .ok place := by
  obtain ⟨modified, hd⟩ := directory_of_step hs
  obtain ⟨modified', hd'⟩ := h.directory hd
  simp only [FileTree.step, hd, hd'] at hs ⊢
  split
  · rename_i hskip
    rwa [if_pos hskip] at hs
  · rename_i hskip
    rw [if_neg hskip] at hs
    split
    · rename_i hparent
      rwa [if_pos hparent] at hs
    · rename_i hparent
      rw [if_neg hparent] at hs
      cases hc : child location segment with
      | error fault => rw [hc] at hs; cases hs
      | ok next =>
        simp only [hc, bind, Except.bind] at hs ⊢
        cases he : tree.entryAt? next with
        | none => rw [he] at hs; cases hs
        | some entry =>
          obtain ⟨content, modified', he', -⟩ := h.entries next _ _ he
          rw [he] at hs
          rw [he']
          exact hs

theorem Grows.walk (h : tree.Grows other) {segments : List String}
    (hw : tree.walk location segments = .ok place) : other.walk location segments = .ok place := by
  induction segments generalizing location with
  | nil => exact hw
  | cons segment rest ih =>
    rw [walk_cons] at hw ⊢
    cases hs : tree.step location segment with
    | error fault => rw [hs] at hw; cases hw
    | ok next =>
      rw [hs] at hw
      rw [h.step hs]
      exact ih hw

theorem Grows.start (h : tree.Grows other) (path : Path) : other.start path = tree.start path := by
  rw [FileTree.start, FileTree.start, h.workingDirectory]

theorem Grows.resolve (h : tree.Grows other) (hr : tree.resolve path = .ok place) :
    other.resolve path = .ok place := by
  obtain ⟨hrefused, first, hfirst, hwalk⟩ := resolve_eq_ok.1 hr
  exact resolve_eq_ok.2 ⟨hrefused, first, (h.start path).trans hfirst, h.walk hwalk⟩

/-! ## The last step of a path -/

theorem step_child {modified : Timestamp} {name : String} {entry : Entry}
    (hd : tree.entryAt? location = some ⟨.directory, modified⟩)
    (hn : name ≠ "" ∧ name ≠ "." ∧ name ≠ "..") (hc : child location name = .ok place)
    (he : tree.entryAt? place = some entry) : tree.step location name = .ok place := by
  simp [step, hd, hn, hc, he, bind, Except.bind]

/-- Empty segments at the end stay in a directory. -/
theorem walk_empty {modified : Timestamp}
    (hd : tree.entryAt? location = some ⟨.directory, modified⟩) {segments : List String}
    (h : ∀ segment ∈ segments, segment = "") : tree.walk location segments = .ok location := by
  induction segments with
  | nil => rfl
  | cons segment rest ih =>
    rw [walk_cons, h segment (List.mem_cons_self ..), step_of_skipped hd rfl]
    exact ih fun other ho => h other (List.mem_cons_of_mem _ ho)

theorem segments_of_dropWhile {segments before : List String} {last : String}
    (h : segments.reverse.dropWhile (· = "") = last :: before) :
    last ≠ "" ∧ ∃ empty, segments = before.reverse ++ last :: empty ∧
      ∀ segment ∈ empty, segment = "" := by
  have hsplit := List.takeWhile_append_dropWhile (p := (· = "")) (l := segments.reverse)
  have hlast := List.head?_dropWhile_not (· = "") segments.reverse
  have hempty : ∀ segment ∈ segments.reverse.takeWhile (· = ""), segment = "" := fun _ hs => by
    simpa using List.mem_takeWhile_imp hs
  rw [h] at hsplit hlast
  generalize segments.reverse.takeWhile (· = "") = skipped at hsplit hempty
  refine ⟨by simpa using hlast, skipped.reverse, ?_, fun segment hs => ?_⟩
  · simpa using (congrArg List.reverse hsplit).symm
  · exact hempty segment (List.mem_reverse.1 hs)

/-- The last step of a path is one from a directory that the segments before it lead to. Only empty
segments follow. -/
theorem lastStep_eq_some {directory : Location} {last : String}
    (h : tree.lastStep path = .ok (some (directory, last))) :
    refusal? path = none ∧ last ≠ "" ∧
      (∃ modified, tree.entryAt? directory = some ⟨.directory, modified⟩) ∧
      ∃ before empty, path.segments = before ++ last :: empty ∧
        (∀ segment ∈ empty, segment = "") ∧
        ∃ first, tree.start path = .ok first ∧ tree.walk first before = .ok directory := by
  unfold lastStep at h
  split at h
  · cases h
  · rename_i hrefused
    split at h
    · cases h
    · rename_i name before hd
      obtain ⟨hname, empty, hsegments, hempty⟩ := segments_of_dropWhile hd
      obtain ⟨reached, hw, h⟩ := bind_eq_ok.1 h
      split at h
      · rename_i modified he
        cases h
        exact ⟨hrefused, hname, ⟨modified, he⟩, _, empty, hsegments, hempty, bind_eq_ok.1 hw⟩
      · cases h
      · cases h

/-- Without a slash at its end, a path has no empty segment there. -/
theorem empty_eq_nil {before empty : List String} {last : String} (hrefused : refusal? path = none)
    (hslash : path.text.toList.getLast? ≠ some '/')
    (hsegments : path.segments = before ++ last :: empty)
    (hempty : ∀ segment ∈ empty, segment = "") : empty = [] := by
  have hne : path.text.toList ≠ [] := by
    simpa using (refusal?_eq_none_iff.1 hrefused).2
  have hlast := List.getLast?_eq_some_getLast hne
  generalize path.text.toList.getLast hne = c at hlast
  obtain ⟨front, hfront⟩ := List.getLast?_eq_some_iff.1 hlast
  have hc : '/' ∉ [c] := by
    rintro hm
    cases List.mem_singleton.1 hm
    exact hslash hlast
  obtain ⟨others, name, hothers, hname⟩ := Path.exists_segments_of_ending hc ⟨front, hfront.symm⟩
  rcases List.eq_nil_or_concat empty with rfl | ⟨init, final, rfl⟩
  · rfl
  · -- the last segment would be empty, but it ends as the text does
    have hfinal : final = name := by
      have hlasts := congrArg List.getLast? (hsegments.symm.trans hothers)
      simpa [List.getLast?_append, List.getLast?_cons] using hlasts
    rw [← hfinal, hempty final (by simp)] at hname
    simp at hname

/-- An entry where the last step of a path leads is found under the path: a directory, or a file if
the path has no slash at its end. -/
theorem Grows.resolve_lastStep (h : tree.Grows other) {directory : Location} {last : String}
    (hl : tree.lastStep path = .ok (some (directory, last))) (hn : last ≠ "." ∧ last ≠ "..")
    (hc : child directory last = .ok location) {entry : Entry}
    (he : other.entryAt? location = some entry)
    (hkind : entry.content = .directory ∨ path.text.toList.getLast? ≠ some '/') :
    other.resolve path = .ok location := by
  obtain ⟨hrefused, hlast, ⟨modified, hd⟩, before, empty, hsegments, hempty, first, hfirst,
    hwalk⟩ := lastStep_eq_some hl
  obtain ⟨modified', hd'⟩ := h.directory hd
  have hbehind : other.walk location empty = .ok location := by
    rcases hkind with hkind | hslash
    · obtain ⟨content, time⟩ := entry
      obtain rfl : content = .directory := hkind
      exact walk_empty he hempty
    · rw [empty_eq_nil hrefused hslash hsegments hempty]
      rfl
  refine resolve_eq_ok.2 ⟨hrefused, first, (h.start path).trans hfirst, ?_⟩
  rw [hsegments, walk_append, h.walk hwalk, Except.bind, walk_cons,
    step_child hd' ⟨hlast, hn⟩ hc he]
  exact hbehind

/-! ## Entries that are added -/

/-- An entry is added where there was none, and is found under a path. -/
structure Adds (tree : FileTree) (path : Path) (location : Location) (entry : Entry)
    (other : FileTree) : Prop where
  absent : tree.entryAt? location = none
  found : other.resolve path = .ok location
  eq_set : other = tree.set location entry

namespace Adds

variable {entry : Entry}

theorem workingDirectory (h : tree.Adds path location entry other) :
    other.workingDirectory = tree.workingDirectory := by
  rw [h.eq_set]
  rfl

theorem entryAt?_cases (h : tree.Adds path location entry other) (place : Location) :
    place = location ∧ other.entryAt? place = some entry ∨
      other.entryAt? place = tree.entryAt? place := by
  rw [h.eq_set, entryAt?_set _ _ (ne_root_of_absent h.absent)]
  split
  · rename_i hp
    exact .inl ⟨hp, rfl⟩
  · exact .inr rfl

theorem of_lastStep {directory : Location} {last : String}
    (hl : tree.lastStep path = .ok (some (directory, last))) (hn : last ≠ "." ∧ last ≠ "..")
    (hc : child directory last = .ok location) (he : tree.entryAt? location = none)
    (hkind : entry.content = .directory ∨ path.text.toList.getLast? ≠ some '/') :
    tree.Adds path location entry (tree.set location entry) := by
  have hne := ne_root_of_absent he
  have hgrows : tree.Grows (tree.set location entry) := by
    refine ⟨rfl, fun place content modified hp => ⟨content, modified, ?_, id⟩⟩
    rw [entryAt?_set _ _ hne, if_neg, hp]
    rintro rfl
    rw [he] at hp
    cases hp
  refine ⟨he, hgrows.resolve_lastStep hl hn hc ?_ hkind, rfl⟩
  rw [entryAt?_set _ _ hne, if_pos rfl]

end Adds

theorem makeDirectory_eq_ok {now : Timestamp} (h : tree.makeDirectory path now = .ok other) :
    ∃ location, tree.Adds path location ⟨.directory, now⟩ other := by
  unfold makeDirectory at h
  obtain ⟨found, hl, h⟩ := bind_eq_ok.1 h
  cases found with
  | none => cases h
  | some found =>
    obtain ⟨directory, last⟩ := found
    simp only at h
    split at h
    · cases h
    · rename_i hdots
      obtain ⟨location, hc, h⟩ := bind_eq_ok.1 h
      split at h
      · cases h
      · rename_i he
        cases h
        exact ⟨location, .of_lastStep hl (not_or.1 hdots) hc he (.inl rfl)⟩

/-- A file that is opened is found under its path, if it was there or not. -/
theorem openToAppend_eq_ok {now : Timestamp}
    (h : tree.openToAppend path now = .ok (other, location)) :
    other = tree ∧ tree.resolve path = .ok location ∨
      tree.Adds path location ⟨.file ByteArray.empty, now⟩ other := by
  unfold openToAppend at h
  obtain ⟨found, hl, h⟩ := bind_eq_ok.1 h
  cases found with
  | none => cases h
  | some found =>
    obtain ⟨directory, last⟩ := found
    simp only at h
    split at h
    · cases h
    · rename_i hrefused
      simp only [not_or] at hrefused
      obtain ⟨hcurrent, hparent, hslash⟩ := hrefused
      obtain ⟨place, hc, h⟩ := bind_eq_ok.1 h
      split at h
      · cases h
      · rename_i he
        cases h
        exact .inl ⟨rfl, (Grows.refl tree).resolve_lastStep hl ⟨hcurrent, hparent⟩ hc he
          (.inr hslash)⟩
      · rename_i he
        cases h
        exact .inr (.of_lastStep hl ⟨hcurrent, hparent⟩ hc he (.inr hslash))

/-! ## Places with an entry -/

/-- A place that is reached in a grown tree is reached where it has an entry. -/
theorem IsTree.reached (ht : tree.IsTree) (h : other.Reached place) {entry : Entry}
    (he : tree.entryAt? place = some entry) : tree.Reached place := by
  induction place generalizing entry with
  | nil => exact reached_root
  | cons name directory ih =>
    obtain ⟨modified, hd⟩ := ht name directory entry he
    obtain ⟨hn, hz⟩ := h.names name (List.mem_cons_self ..)
    have hwalk := h.walk
    rw [List.reverse_cons] at hwalk
    obtain ⟨middle, -, hs⟩ := walk_snoc hwalk
    obtain rfl : directory = middle := (List.cons.inj (step_name hn hs)).2
    have hstep : tree.step directory name = .ok (name :: directory) :=
      step_child hd ⟨hn.nonempty, hn.not_current, hn.not_parent⟩ (child_of_step hn hs) he
    exact (ih h.above hd).child hn hz hstep

end EsmCompletion.FileTree
