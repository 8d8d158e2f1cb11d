import EsmCompletion.Proofs.Path.Canonical
import Mathlib.Data.List.TakeWhile

/-! # Base names and extensions

The base name of a path is its last segment that counts: empty segments and single dots may follow,
so a slash at the end does not matter, but two dots may not. An extension is what stands behind the
last dot of a base name, unless that dot comes first. Nothing that is put before a path, with a slash
between, changes its base name. -/

namespace EsmCompletion.Path

/-! ## Base names -/

/-- A name is the base name of a path if no segment behind it counts. -/
structure HasBaseName (path : Path) (name : String) : Prop where
  isName : IsName name
  last : ∃ directory ignored : List String, path.segments = directory ++ name :: ignored ∧
    ∀ segment ∈ ignored, segment = "" ∨ segment = "."

theorem ofSegment?_eq_none_iff {segment : String} :
    Component.ofSegment? segment = none ↔ segment = "" ∨ segment = "." := by
  unfold Component.ofSegment?
  split
  · rename_i hskip
    exact iff_of_true rfl hskip
  · rename_i hskip
    split <;> exact iff_of_false (by simp) hskip

theorem eq_of_ofSegment?_eq_normal {segment name : String}
    (h : Component.ofSegment? segment = some (.normal name)) : segment = name :=
  (text_of_ofSegment? h).symm

/-- The root and a single dot at the start are no names. -/
theorem getLast?_components_eq_normal_iff {path : Path} {name : String} :
    path.components.getLast? = some (.normal name) ↔ path.inner.getLast? = some (.normal name) := by
  have hcons (first : Component) (hf : first ≠ .normal name) :
      (first :: path.inner).getLast? = some (.normal name) ↔
        path.inner.getLast? = some (.normal name) := by
    cases path.inner with
    | nil => simpa using hf
    | cons c rest => rw [List.getLast?_cons_cons]
  unfold components
  split
  · exact hcons .root (by simp)
  · split
    · exact hcons .current (by simp)
    · exact Iff.rfl

theorem fileName?_eq_some_iff_inner {path : Path} {name : String} :
    path.fileName? = some name ↔ path.inner.getLast? = some (.normal name) := by
  rw [← getLast?_components_eq_normal_iff]
  unfold fileName?
  split
  · rename_i other hlast
    rw [hlast]
    simp
  · rename_i hnone
    exact iff_of_false (by simp) (hnone name)

theorem fileName?_eq_some_iff {path : Path} {name : String} :
    path.fileName? = some name ↔ path.HasBaseName name := by
  rw [fileName?_eq_some_iff_inner, inner, List.getLast?_filterMap, List.findSome?_eq_some_iff]
  constructor
  · rintro ⟨skipped, segment, before, hsegments, hname, hskipped⟩
    obtain rfl := eq_of_ofSegment?_eq_normal hname
    rw [List.reverse_eq_iff, List.reverse_append, List.reverse_cons, List.append_assoc,
      List.singleton_append] at hsegments
    have hmem : segment ∈ path.segments := by
      rw [hsegments]
      simp
    have hn : IsName segment := Component.IsInner.of_segment hname (slash_not_mem_segment hmem)
    refine ⟨hn, _, _, hsegments, fun other ho => ?_⟩
    exact ofSegment?_eq_none_iff.1 (hskipped other (List.mem_reverse.1 ho))
  · rintro ⟨hn, directory, ignored, hsegments, hignored⟩
    refine ⟨ignored.reverse, name, directory.reverse, by simp [hsegments], hn.ofSegment?, ?_⟩
    exact fun other ho => ofSegment?_eq_none_iff.2 (hignored other (List.mem_reverse.1 ho))

/-! ## Paths behind a directory -/

theorem fileName?_of_inner_append {path longer : Path} {front : List Component} {name : String}
    (h : path.HasBaseName name) (hl : longer.inner = front ++ path.inner) :
    longer.fileName? = path.fileName? := by
  have hn := fileName?_eq_some_iff.2 h
  rw [hn, fileName?_eq_some_iff_inner, hl, List.getLast?_append,
    fileName?_eq_some_iff_inner.1 hn, Option.some_or]

theorem HasBaseName.fileName?_behind {path : Path} {name : String} (h : path.HasBaseName name)
    (directory : String) : fileName? ⟨directory ++ "/" ++ path.text⟩ = path.fileName? :=
  fileName?_of_inner_append h (inner_append_slash directory path.text)

theorem HasBaseName.fileName?_join {path : Path} {name : String} (h : path.HasBaseName name)
    (directory : Path) : (directory.join path).fileName? = path.fileName? := by
  by_cases ha : path.isAbsolute = true
  · rw [join_of_isAbsolute ha]
  · exact fileName?_of_inner_append h (inner_join (Bool.eq_false_iff.2 ha))

/-! ## Extensions -/

/-- A text with a dot is cut at its last dot. -/
theorem extensionOf?_append {stem suffix : String} (hstem : stem ≠ "")
    (hs : '.' ∉ suffix.toList) : extensionOf? (stem ++ "." ++ suffix) = some suffix := by
  have hkeep : ∀ c ∈ suffix.toList.reverse, (c != '.') = true := fun c hc =>
    bne_iff_ne.2 fun e => hs (e ▸ List.mem_reverse.1 hc)
  have hreverse : (stem ++ "." ++ suffix).toList.reverse =
      suffix.toList.reverse ++ '.' :: stem.toList.reverse := by
    simp
  obtain ⟨c, rest, hrest⟩ : ∃ c rest, stem.toList.reverse = c :: rest :=
    List.exists_cons_of_ne_nil (by simpa using hstem)
  simp only [extensionOf?, hreverse, List.dropWhile_append_of_pos hkeep,
    List.takeWhile_append_of_pos hkeep, hrest]
  simp

theorem extensionOf?_eq_some_iff {name suffix : String} :
    extensionOf? name = some suffix ↔
      ∃ stem, stem ≠ "" ∧ '.' ∉ suffix.toList ∧ name = stem ++ "." ++ suffix := by
  constructor
  · intro h
    have hsplit := List.takeWhile_append_dropWhile (p := (· != '.')) (l := name.toList.reverse)
    have hdot := List.head?_dropWhile_not (· != '.') name.toList.reverse
    have hbehind : '.' ∉ name.toList.reverse.takeWhile (· != '.') := fun hm => by
      simpa using List.mem_takeWhile_imp hm
    simp only [extensionOf?] at h
    generalize name.toList.reverse.takeWhile (· != '.') = behind at h hsplit hbehind
    generalize name.toList.reverse.dropWhile (· != '.') = front at h hsplit hdot
    split at h
    · rename_i dot c rest
      obtain rfl : dot = '.' := by simpa using hdot
      obtain rfl := Option.some.inj h
      refine ⟨String.ofList (c :: rest).reverse, by simp, by simpa using hbehind, ?_⟩
      rw [← String.toList_inj, ← List.reverse_inj, ← hsplit]
      simp
    · cases h
  · rintro ⟨stem, hstem, hs, rfl⟩
    exact extensionOf?_append hstem hs

end EsmCompletion.Path
