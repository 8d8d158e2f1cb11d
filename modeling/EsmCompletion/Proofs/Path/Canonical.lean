import EsmCompletion.Proofs.Path.NormalForm

/-! # Normal forms are canonical

A normal form is written with names only, and all spellings of the same components have one. What is
read behind a path may as well be read behind its normal form: two dots take away what the first path
left on the stack of a normalization, and its normal form leaves the same. So what is read from a
working directory does not depend on how that directory is spelled. -/

namespace EsmCompletion.Path

/-! ## Paths in two parts -/

theorem inner_append_slash (first second : String) :
    inner ⟨first ++ "/" ++ second⟩ = inner ⟨first⟩ ++ inner ⟨second⟩ := by
  have htext : (first ++ "/" ++ second).toList = first.toList ++ '/' :: second.toList := by simp
  simp only [inner, segments, htext, List.splitOn_append_cons_self, List.map_append,
    List.filterMap_append]

variable {directory path : Path}

/-- The slash at the end of a directory's text, or the one that is put behind it, adds nothing. -/
theorem inner_join (h : path.isAbsolute = false) :
    (directory.join path).inner = directory.inner ++ path.inner := by
  obtain ⟨text⟩ := directory
  obtain ⟨typed⟩ := path
  rw [join, if_neg (Bool.eq_false_iff.1 h)]
  split
  · rename_i hlast
    cases hl : text.toList.getLast? with
    | none =>
      obtain rfl : text = "" := by simpa using hl
      simp [inner, segments, Component.ofSegment?]
    | some last =>
      obtain rfl : last = '/' := by simpa [hl] using hlast
      obtain ⟨front, hfront⟩ := List.getLast?_eq_some_iff.1 hl
      obtain rfl : text = String.ofList front ++ "/" := by
        rw [← String.toList_inj, hfront]
        simp
      have hnothing := inner_append_slash (String.ofList front) ""
      rw [String.append_empty] at hnothing
      rw [inner_append_slash, hnothing]
      simp [inner, segments, Component.ofSegment?]
  · exact inner_append_slash text typed

/-- What is read behind a directory goes on with the stack that the directory leaves. -/
theorem resolved_join (h : path.isAbsolute = false) :
    (directory.join path).resolved =
      (path.inner.foldl pushComponent directory.resolved.reverse).reverse := by
  have hbottom : (directory.join path).bottom = directory.bottom := by
    rw [bottom, isAbsolute_join_eq, h, Bool.or_false, bottom]
  rw [resolved_eq, hbottom, inner_join h, List.foldl_append, resolved_eq directory,
    List.reverse_reverse]

/-- A path may be normalized before another one is read behind it. -/
theorem normalize_join (directory path : Path) :
    (directory.join path).normalize = (directory.normalize.join path).normalize := by
  by_cases h : path.isAbsolute = true
  · rw [join_of_isAbsolute h, join_of_isAbsolute h]
  · have hrelative := Bool.eq_false_iff.2 h
    rw [normalize_eq, normalize_eq, resolved_join hrelative, resolved_join hrelative,
      resolved_normalize]

/-! ## What a normal form is made of -/

/-- A path that is written with names, a single slash between any two of them, behind the root or
not. -/
structure ConsistsOf (path : Path) (names : List String) : Prop where
  isName : ∀ name ∈ names, IsName name
  text : path.text = (if path.isAbsolute then "/" else "") ++ "/".intercalate names
  components : path.components = path.bottom ++ names.map .normal

/-- A normal form consists of names. -/
theorem exists_consistsOf_normalize (path : Path) :
    ∃ names, path.normalize.ConsistsOf names := by
  obtain ⟨names, hnames, hresolved⟩ := exists_resolved_eq path
  have habsolute := isAbsolute_normalize path
  refine ⟨names, hnames, ?_, ?_⟩
  · have hinner : ∀ c ∈ names.map Component.normal, c.IsInner := by
      intro c hc
      obtain ⟨name, hn, rfl⟩ := List.mem_map.1 hc
      exact hnames name hn
    have htexts : (names.map Component.normal).map Component.text = names := by
      simp [Component.text, Function.comp_def]
    rw [habsolute, normalize_eq, hresolved, bottom]
    split
    · show "/" ++ "/".intercalate ((names.map Component.normal).map Component.text) = _
      rw [htexts]
    · rw [List.nil_append, ofComponents_inner hinner, htexts, String.empty_append]
  · rw [components_normalize, hresolved, bottom, bottom, habsolute]

theorem normalize_eq_of_components {other : Path} (h : path.components = other.components) :
    path.normalize = other.normalize := by
  rw [normalize_eq, normalize_eq, resolved, resolved, h]

/-- Normal forms are canonical. The normal form of a path consists of names, behind the root exactly if
the path is absolute; it is its own normal form, and paths with the same components have the same. A
path may be normalized before another one, of whatever form, is read behind it. So what is read from an
absolute working directory is an absolute path in normal form, which stays as it is when it is read
from there again, and which depends on the normal form of the directory alone. -/
theorem normal_forms_canonical (path other : Path) :
    path.normalize.isAbsolute = path.isAbsolute ∧
      (∃ names, path.normalize.ConsistsOf names) ∧
      path.normalize.normalize = path.normalize ∧
      (path.components = other.components → path.normalize = other.normalize) ∧
      (path.join other).normalize = (path.normalize.join other).normalize ∧
      ∀ directory : Path, directory.isAbsolute = true →
        (path.absoluteFrom directory).isAbsolute = true ∧
          (path.absoluteFrom directory).normalize = path.absoluteFrom directory ∧
          (path.absoluteFrom directory).absoluteFrom directory = path.absoluteFrom directory ∧
          ∀ spelling : Path, spelling.normalize = directory.normalize →
            path.absoluteFrom spelling = path.absoluteFrom directory := by
  refine ⟨isAbsolute_normalize path, exists_consistsOf_normalize path, isNormal_normalize path,
    normalize_eq_of_components, normalize_join path other, fun directory hd => ?_⟩
  have habsolute : (path.absoluteFrom directory).isAbsolute = true :=
    isAbsolute_absoluteFrom hd path
  have hnormal : (path.absoluteFrom directory).normalize = path.absoluteFrom directory :=
    isNormal_normalize _
  refine ⟨habsolute, hnormal, ?_, fun spelling hs => ?_⟩
  · calc (path.absoluteFrom directory).absoluteFrom directory
        _ = (path.absoluteFrom directory).normalize := by
          rw [absoluteFrom, join_of_isAbsolute habsolute]
        _ = path.absoluteFrom directory := hnormal
  · calc path.absoluteFrom spelling
        _ = (spelling.normalize.join path).normalize := normalize_join spelling path
        _ = (directory.normalize.join path).normalize := by rw [hs]
        _ = path.absoluteFrom directory := (normalize_join directory path).symm

/-- Two spellings of a path that climbs, read from two spellings of a directory. -/
theorem normal_forms_of_spellings :
    let path : Path := ⟨"../m//a"⟩
    let other : Path := ⟨".././m/a/"⟩
    let directory : Path := ⟨"/x/../y"⟩
    let spelling : Path := ⟨"//y/."⟩
    path.components = other.components ∧ path.normalize = other.normalize ∧
      directory.isAbsolute = true ∧ spelling.normalize = directory.normalize ∧
      path.absoluteFrom spelling = path.absoluteFrom directory ∧
      path.absoluteFrom directory = ⟨"/m/a"⟩ := by
  intro path other directory spelling
  have hcomponents : path.components = other.components := by decide +kernel
  have hdirectory : directory.isAbsolute = true := by decide +kernel
  have hspelling : spelling.normalize = directory.normalize := by decide +kernel
  obtain ⟨-, -, -, hsame, -, hfrom⟩ := normal_forms_canonical path other
  obtain ⟨-, -, -, hrespelled⟩ := hfrom directory hdirectory
  exact ⟨hcomponents, hsame hcomponents, hdirectory, hspelling, hrespelled spelling hspelling,
    by decide +kernel⟩

end EsmCompletion.Path
