import EsmCompletion.Path

/-! # Components and normal forms

Writing the components of a path and reading them again gives the same components, so what is
decided on components alone does not depend on how a path is spelled. A normal form is a root or
nothing, then names; `normalize` reaches one at once, and two normal forms with the same
components are the same text. -/

namespace EsmCompletion.Path

/-! ## Segments -/

theorem not_mem_of_mem_splitOn {α : Type} [BEq α] [LawfulBEq α] (a : α) :
    ∀ (text : List α), ∀ piece ∈ text.splitOn a, a ∉ piece
  | [], piece, h => by
    obtain rfl : piece = [] := by simpa using h
    exact List.not_mem_nil
  | c :: rest, piece, h => by
    have ih := not_mem_of_mem_splitOn a rest
    rw [List.splitOn_cons_eq_if_modifyHead] at h
    split at h
    · rcases List.mem_cons.1 h with rfl | h
      · exact List.not_mem_nil
      · exact ih piece h
    · rename_i hc
      obtain ⟨first, others, hs⟩ := List.exists_cons_of_ne_nil (List.splitOn_ne_nil a rest)
      rw [hs, List.modifyHead_cons] at h
      rw [hs] at ih
      rcases List.mem_cons.1 h with rfl | h
      · have hne : a ≠ c := fun e => hc (by simp [e])
        exact fun hm => (List.mem_cons.1 hm).elim hne (ih first (List.mem_cons_self ..))
      · exact ih piece (List.mem_cons_of_mem _ h)

theorem slash_not_mem_segment {path : Path} {segment : String} (h : segment ∈ path.segments) :
    '/' ∉ segment.toList := by
  obtain ⟨piece, hp, rfl⟩ := List.mem_map.1 h
  simpa using not_mem_of_mem_splitOn '/' _ piece hp

theorem segments_ne_nil (path : Path) : path.segments ≠ [] := by
  simp [segments]

/-- Segments between slashes are read as they were written. -/
theorem segments_intercalate {written : List String} (hne : written ≠ [])
    (h : ∀ segment ∈ written, '/' ∉ segment.toList) :
    segments ⟨"/".intercalate written⟩ = written := by
  have hsplit : (['/'].intercalate (written.map String.toList)).splitOn '/' =
      written.map String.toList := by
    refine List.splitOn_intercalate _ ?_ (by simpa using hne)
    intro piece hp
    obtain ⟨segment, hs, rfl⟩ := List.mem_map.1 hp
    exact h segment hs
  have htext : ("/".intercalate written).toList =
      ['/'].intercalate (written.map String.toList) := by
    simp [String.toList_intercalate]
  simp [segments, htext, hsplit, Function.comp_def]

theorem segments_slash_append (text : String) : segments ⟨"/" ++ text⟩ = "" :: segments ⟨text⟩ := by
  have htext : ("/" ++ text).toList = '/' :: text.toList := by simp
  simp [segments, htext, List.splitOn_cons_eq_if_modifyHead]

theorem isAbsolute_slash_append (text : String) : isAbsolute ⟨"/" ++ text⟩ = true := by
  simp [isAbsolute]

theorem head?_segments_of_isAbsolute {path : Path} (h : path.isAbsolute = true) :
    path.segments.head? = some "" := by
  obtain ⟨rest, hr⟩ : ∃ rest, path.text.toList = '/' :: rest := by
    cases htext : path.text.toList with
    | nil => simp [isAbsolute, htext] at h
    | cons c rest =>
      have hc : c = '/' := by simpa [isAbsolute, htext] using h
      exact ⟨rest, by rw [hc]⟩
  simp [segments, hr, List.splitOn_cons_eq_if_modifyHead]

theorem splitOn_append_of_not_mem {α : Type} [BEq α] [LawfulBEq α] {a : α} (text : List α)
    {ending : List α} (h : a ∉ ending) :
    ∃ before last, (text ++ ending).splitOn a = before ++ [last ++ ending] := by
  induction text with
  | nil => exact ⟨[], [], List.splitOn_eq_singleton h⟩
  | cons c rest ih =>
    obtain ⟨before, last, hsplit⟩ := ih
    rw [List.cons_append, List.splitOn_cons_eq_if_modifyHead, hsplit]
    split
    · exact ⟨[] :: before, last, rfl⟩
    · cases before with
      | nil => exact ⟨[], c :: last, rfl⟩
      | cons first others => exact ⟨(c :: first) :: others, last, rfl⟩

/-- The last segment ends as the text does. -/
theorem exists_segments_of_ending {path : Path} {ending : List Char} (hs : '/' ∉ ending)
    (h : ending <:+ path.text.toList) :
    ∃ before name, path.segments = before ++ [name] ∧ ending <:+ name.toList := by
  obtain ⟨front, hf⟩ := h
  obtain ⟨before, last, hsplit⟩ := splitOn_append_of_not_mem front hs
  refine ⟨before.map String.ofList, String.ofList (last ++ ending), ?_, ?_⟩
  · rw [segments, ← hf, hsplit, List.map_append]
    rfl
  · simp

/-! ## What components can be -/

/-- The texts that name an entry of a directory. -/
structure IsName (name : String) : Prop where
  nonempty : name ≠ ""
  not_current : name ≠ "."
  not_parent : name ≠ ".."
  no_slash : '/' ∉ name.toList

/-- The components that may stand anywhere behind the first one. -/
def Component.IsInner : Component → Prop
  | parent => True
  | normal name => IsName name
  | root | current => False

/-- The lists of components that paths have: a root or a single dot may come first. -/
inductive WellFormed : List Component → Prop
  | relative {inner : List Component} : (∀ c ∈ inner, c.IsInner) → WellFormed inner
  | current {inner : List Component} :
      (∀ c ∈ inner, c.IsInner) → WellFormed (.current :: inner)
  | absolute {inner : List Component} : (∀ c ∈ inner, c.IsInner) → WellFormed (.root :: inner)

theorem Component.IsInner.of_segment {segment : String} {c : Component}
    (h : Component.ofSegment? segment = some c) (hs : '/' ∉ segment.toList) : c.IsInner := by
  unfold Component.ofSegment? at h
  split at h
  · contradiction
  · rename_i hskip
    split at h
    · obtain rfl := Option.some.inj h
      trivial
    · rename_i hparent
      obtain rfl := Option.some.inj h
      exact ⟨fun e => hskip (.inl e), fun e => hskip (.inr e), hparent, hs⟩

theorem isInner_of_mem_segments {path : Path} {c : Component}
    (h : c ∈ path.segments.filterMap Component.ofSegment?) : c.IsInner := by
  obtain ⟨segment, hs, hc⟩ := List.mem_filterMap.1 h
  exact .of_segment hc (slash_not_mem_segment hs)

theorem wellFormed_components (path : Path) : WellFormed path.components := by
  unfold components
  split
  · exact .absolute fun _ h => isInner_of_mem_segments h
  · split
    · exact .current fun _ h => isInner_of_mem_segments h
    · exact .relative fun _ h => isInner_of_mem_segments h

/-! ## Writing components and reading them again -/

namespace Component.IsInner

variable {c : Component}

theorem ofSegment?_text (h : c.IsInner) : ofSegment? c.text = some c := by
  cases c with
  | parent => rfl
  | normal name => simp [ofSegment?, Component.text, h.nonempty, h.not_current, h.not_parent]
  | root | current => exact h.elim

theorem slash_not_mem_text (h : c.IsInner) : '/' ∉ c.text.toList := by
  cases c with
  | parent => decide
  | normal name => exact h.no_slash
  | root | current => exact h.elim

theorem text_ne_empty (h : c.IsInner) : c.text ≠ "" := by
  cases c with
  | parent => decide
  | normal name => exact h.nonempty
  | root | current => exact h.elim

theorem text_ne_dot (h : c.IsInner) : c.text ≠ "." := by
  cases c with
  | parent => decide
  | normal name => exact h.not_current
  | root | current => exact h.elim

end Component.IsInner

theorem filterMap_ofSegment?_text {inner : List Component} (h : ∀ c ∈ inner, c.IsInner) :
    (inner.map Component.text).filterMap Component.ofSegment? = inner := by
  induction inner with
  | nil => rfl
  | cons c rest ih =>
    have hc := h c (List.mem_cons_self ..)
    have hrest := ih fun d hd => h d (List.mem_cons_of_mem _ hd)
    simp [hc.ofSegment?_text, hrest]

theorem slash_not_mem_texts {inner : List Component} (h : ∀ c ∈ inner, c.IsInner) :
    ∀ segment ∈ inner.map Component.text, '/' ∉ segment.toList := by
  intro segment hs
  obtain ⟨c, hc, rfl⟩ := List.mem_map.1 hs
  exact (h c hc).slash_not_mem_text

/-- A relative path that is written from a list of segments. -/
theorem isAbsolute_intercalate {written : List String} (h : ∀ s ∈ written, '/' ∉ s.toList)
    (hfirst : written.head? ≠ some "") : isAbsolute ⟨"/".intercalate written⟩ = false := by
  cases written with
  | nil => rfl
  | cons first rest =>
    rw [Bool.eq_false_iff]
    intro habs
    have := head?_segments_of_isAbsolute habs
    rw [segments_intercalate (by simp) h] at this
    exact hfirst this

theorem filterMap_segments_inner {inner : List Component} (h : ∀ c ∈ inner, c.IsInner) :
    (segments ⟨"/".intercalate (inner.map Component.text)⟩).filterMap Component.ofSegment? =
      inner := by
  cases inner with
  | nil => rfl
  | cons c rest =>
    rw [segments_intercalate (by simp) (slash_not_mem_texts h), filterMap_ofSegment?_text h]

theorem ofComponents_inner {inner : List Component} (h : ∀ c ∈ inner, c.IsInner) :
    ofComponents inner = ⟨"/".intercalate (inner.map Component.text)⟩ := by
  cases inner with
  | nil => rfl
  | cons c rest =>
    cases c with
    | root => exact (h .root (List.mem_cons_self ..)).elim
    | current | parent | normal name => rfl

/-- Components are read as they were written. -/
theorem components_ofComponents {written : List Component} (h : WellFormed written) :
    (ofComponents written).components = written := by
  cases h with
  | absolute hinner =>
    rename_i inner
    have hread : (segments ⟨"/" ++ "/".intercalate (inner.map Component.text)⟩).filterMap
        Component.ofSegment? = inner := by
      rw [segments_slash_append, List.filterMap_cons_none (by rfl), filterMap_segments_inner hinner]
    simp [ofComponents, components, isAbsolute_slash_append, hread]
  | current hinner =>
    rename_i inner
    have hslash : ∀ segment ∈ "." :: inner.map Component.text, '/' ∉ segment.toList := by
      intro segment hs
      rcases List.mem_cons.1 hs with rfl | hs
      · decide
      · exact slash_not_mem_texts hinner segment hs
    have habs := isAbsolute_intercalate hslash (by simp)
    have hsegments := segments_intercalate (List.cons_ne_nil _ _) hslash
    have hread : ("." :: inner.map Component.text).filterMap Component.ofSegment? = inner := by
      rw [List.filterMap_cons_none (by rfl), filterMap_ofSegment?_text hinner]
    simp [ofComponents, components, Component.text, habs, hsegments, hread]
  | relative hinner =>
    have hfirst : (written.map Component.text).head? ≠ some "" ∧
        (segments ⟨"/".intercalate (written.map Component.text)⟩).head? ≠ some "." := by
      cases written with
      | nil => decide
      | cons c rest =>
        have hc := hinner c (List.mem_cons_self ..)
        rw [segments_intercalate (by simp) (slash_not_mem_texts hinner)]
        exact ⟨by simpa using hc.text_ne_empty, by simpa using hc.text_ne_dot⟩
    have habs := isAbsolute_intercalate (slash_not_mem_texts hinner) hfirst.1
    rw [ofComponents_inner hinner]
    simp [components, habs, hfirst.2, filterMap_segments_inner hinner]

theorem WellFormed.dropLast {written : List Component} (h : WellFormed written) :
    WellFormed written.dropLast := by
  have hmem {inner : List Component} (hinner : ∀ c ∈ inner, c.IsInner) :
      ∀ c ∈ inner.dropLast, c.IsInner := fun c hc => hinner c (List.dropLast_subset _ hc)
  cases h with
  | relative hinner => exact .relative (hmem hinner)
  | current hinner =>
    rename_i inner
    cases inner with
    | nil => exact .relative (by simp)
    | cons => exact .current (hmem hinner)
  | absolute hinner =>
    rename_i inner
    cases inner with
    | nil => exact .relative (by simp)
    | cons => exact .absolute (hmem hinner)

/-- The path above another one has all of its components but the last. -/
theorem components_of_parent? {path parent : Path} (h : path.parent? = some parent) :
    parent.components = path.components.dropLast := by
  unfold parent? at h
  split at h
  · cases h
  · cases h
  · rename_i last rest _ hreverse
    cases h
    have hrest : rest.reverse = path.components.dropLast := by
      rw [← List.reverse_reverse path.components, hreverse]
      simp
    rw [hrest, components_ofComponents (wellFormed_components path).dropLast]

/-! ## Spellings -/

/-- The segments that stand for a component. -/
def counted (segments : List String) : List String :=
  segments.filter fun segment => (Component.ofSegment? segment).isSome

theorem counted_cons (segment : String) (rest : List String) :
    counted (segment :: rest) =
      if (Component.ofSegment? segment).isSome then segment :: counted rest
      else counted rest := by
  simp [counted, List.filter_cons]

theorem text_of_ofSegment? {segment : String} {c : Component}
    (h : Component.ofSegment? segment = some c) : c.text = segment := by
  unfold Component.ofSegment? at h
  split at h
  · cases h
  · split at h
    · rename_i hparent
      cases h
      exact hparent.symm
    · cases h
      rfl

theorem counted_eq_map_text (segments : List String) :
    counted segments = (segments.filterMap Component.ofSegment?).map Component.text := by
  induction segments with
  | nil => rfl
  | cons segment rest ih =>
    rw [counted_cons, ih]
    cases hs : Component.ofSegment? segment with
    | none => simp [hs]
    | some c => simp [hs, text_of_ofSegment? hs]

/-- The components behind a root or a single dot that comes first. -/
theorem filterMap_segments_eq (path : Path) :
    path.segments.filterMap Component.ofSegment? =
      path.components.filter fun c => c ≠ .root ∧ c ≠ .current := by
  have hkeep : (path.segments.filterMap Component.ofSegment?).filter
      (fun c => decide (c ≠ .root ∧ c ≠ .current)) =
        path.segments.filterMap Component.ofSegment? := by
    refine List.filter_eq_self.2 fun c hc => ?_
    have := isInner_of_mem_segments hc
    cases c with
    | root | current => exact this.elim
    | parent | normal name => simp
  unfold components
  split
  · simpa using hkeep.symm
  · split
    · simpa using hkeep.symm
    · exact hkeep.symm

theorem isAbsolute_iff {path : Path} :
    path.isAbsolute = true ↔ path.components.head? = some .root := by
  unfold components
  split
  · rename_i h
    simp [h]
  · rename_i h
    refine ⟨fun h' => absurd h' h, fun hhead => ?_⟩
    split at hhead
    · simp at hhead
    · have := isInner_of_mem_segments (List.mem_of_mem_head? hhead)
      exact this.elim

theorem isAbsolute_join_eq (directory path : Path) :
    (directory.join path).isAbsolute = (directory.isAbsolute || path.isAbsolute) := by
  by_cases hp : path.isAbsolute = true
  · rw [join_of_isAbsolute hp, hp, Bool.or_true]
  · rw [join, if_neg hp, Bool.eq_false_iff.2 hp, Bool.or_false]
    cases hd : directory.text.toList with
    | nil => simpa [isAbsolute, hd] using hp
    | cons c rest => split <;> simp [isAbsolute, hd]

theorem isAbsolute_join {directory : Path} (h : directory.isAbsolute = true) (path : Path) :
    (directory.join path).isAbsolute = true := by
  rw [isAbsolute_join_eq, h, Bool.true_or]

theorem isAbsolute_of_components {path other : Path} (h : path.components = other.components) :
    path.isAbsolute = other.isAbsolute := by
  rw [Bool.eq_iff_iff, isAbsolute_iff, isAbsolute_iff, h]

theorem counted_of_components {path other : Path} (h : path.components = other.components) :
    counted path.segments = counted other.segments := by
  rw [counted_eq_map_text, counted_eq_map_text, filterMap_segments_eq, filterMap_segments_eq, h]

/-- A path whose text ends in a name, with no slash behind it. -/
def EndsInName (path : Path) : Prop :=
  ∃ name, IsName name ∧ path.segments.getLast? = some name

theorem IsName.ofSegment? {name : String} (h : IsName name) :
    Component.ofSegment? name = some (.normal name) :=
  Component.IsInner.ofSegment?_text (c := .normal name) h

/-- A name that comes last is read last. -/
theorem filterMap_segments_concat {path : Path} {before : List String} {name : String}
    (h : path.segments = before ++ [name]) (hn : IsName name) :
    path.segments.filterMap Component.ofSegment? =
      before.filterMap Component.ofSegment? ++ [.normal name] := by
  rw [h, List.filterMap_append]
  simp [hn.ofSegment?]

theorem EndsInName.getLast?_components {path : Path} (h : path.EndsInName) :
    ∃ name, path.components.getLast? = some (.normal name) := by
  obtain ⟨name, hn, hlast⟩ := h
  obtain ⟨before, hb⟩ := List.getLast?_eq_some_iff.1 hlast
  refine ⟨name, ?_⟩
  unfold components
  rw [filterMap_segments_concat hb hn]
  split
  · simp [List.getLast?_cons]
  · split <;> simp [List.getLast?_cons]

/-- The name that is shown for a file depends on the components of its path alone. -/
theorem EndsInName.shownName_of_components {path other : Path} (hp : path.EndsInName)
    (h : path.components = other.components) : path.shownName = other.shownName := by
  obtain ⟨name, hlast⟩ := hp.getLast?_components
  have hother : other.components.getLast? = some (.normal name) := by rw [← h, hlast]
  simp [shownName, fileName?, hlast, hother]

/-- What a text holds besides its separator stands in one of its pieces. -/
theorem mem_splitOn_iff {α : Type} [BEq α] [LawfulBEq α] {a c : α} (hc : c ≠ a) (text : List α) :
    (∃ piece ∈ text.splitOn a, c ∈ piece) ↔ c ∈ text := by
  induction text with
  | nil => simp
  | cons first rest ih =>
    rw [List.splitOn_cons_eq_if_modifyHead]
    split
    · rename_i hfirst
      have hne : c ≠ first := fun e => hc (e.trans (by simpa using hfirst))
      simp [ih, hne]
    · obtain ⟨piece, others, hs⟩ := List.exists_cons_of_ne_nil (List.splitOn_ne_nil a rest)
      rw [hs] at ih ⊢
      rw [List.modifyHead_cons, List.mem_cons, ← ih]
      simp [or_assoc]

theorem mem_text_iff {path : Path} {c : Char} (hslash : c ≠ '/') :
    c ∈ path.text.toList ↔ ∃ segment ∈ path.segments, c ∈ segment.toList := by
  rw [← mem_splitOn_iff hslash]
  constructor
  · rintro ⟨piece, hp, hm⟩
    exact ⟨String.ofList piece, List.mem_map_of_mem hp, by simpa using hm⟩
  · rintro ⟨segment, hs, hm⟩
    obtain ⟨piece, hp, rfl⟩ := List.mem_map.1 hs
    exact ⟨piece, hp, by simpa using hm⟩

theorem mem_text_iff_counted {path : Path} {c : Char} (hslash : c ≠ '/') (hdot : c ≠ '.') :
    c ∈ path.text.toList ↔ ∃ segment ∈ counted path.segments, c ∈ segment.toList := by
  rw [mem_text_iff hslash]
  constructor
  · rintro ⟨segment, hs, hmem⟩
    refine ⟨segment, List.mem_filter.2 ⟨hs, ?_⟩, hmem⟩
    -- skipped segments hold nothing but dots
    have hne : segment ≠ "" ∧ segment ≠ "." := by
      constructor <;> rintro rfl
      · cases hmem
      · exact hdot (List.mem_singleton.1 hmem)
    unfold Component.ofSegment?
    rw [if_neg (not_or.2 hne)]
    split <;> rfl
  · rintro ⟨segment, hs, hmem⟩
    exact ⟨segment, (List.mem_filter.1 hs).1, hmem⟩

/-! ## Normal forms -/

/-- The lists of components that normal forms have: names, and the root before them or not. -/
def NormalComponents (written : List Component) : Prop :=
  ∃ names : List String, (∀ name ∈ names, IsName name) ∧
    (written = names.map .normal ∨ written = .root :: names.map .normal)

theorem NormalComponents.wellFormed {written : List Component} (h : NormalComponents written) :
    WellFormed written := by
  obtain ⟨names, hnames, hw⟩ := h
  have hinner : ∀ c ∈ names.map Component.normal, c.IsInner := by
    intro c hc
    obtain ⟨name, hn, rfl⟩ := List.mem_map.1 hc
    exact hnames name hn
  rcases hw with rfl | rfl
  · exact .relative hinner
  · exact .absolute hinner

/-- What the stack of a normalization holds: names, over a root or over nothing. -/
def NormalStack (bottom stack : List Component) : Prop :=
  ∃ names : List String, (∀ name ∈ names, IsName name) ∧ stack = names.map .normal ++ bottom

theorem NormalStack.push {bottom stack : List Component} (hb : bottom = [] ∨ bottom = [.root])
    (h : NormalStack bottom stack) {c : Component} (hc : c.IsInner) :
    NormalStack bottom (pushComponent stack c) := by
  obtain ⟨names, hnames, rfl⟩ := h
  cases c with
  | root | current => exact hc.elim
  | normal name =>
    refine ⟨name :: names, ?_, rfl⟩
    intro n hn
    rcases List.mem_cons.1 hn with rfl | hn
    · exact hc
    · exact hnames n hn
  | parent =>
    cases names with
    | nil =>
      -- nothing to take away: the two dots are dropped
      refine ⟨[], by simp, ?_⟩
      rcases hb with rfl | rfl <;> rfl
    | cons name below => exact ⟨below, fun n hn => hnames n (List.mem_cons_of_mem _ hn), rfl⟩

theorem NormalStack.pushAll {bottom : List Component} (hb : bottom = [] ∨ bottom = [.root])
    {inner : List Component} (hinner : ∀ c ∈ inner, c.IsInner) {stack : List Component}
    (h : NormalStack bottom stack) : NormalStack bottom (inner.foldl pushComponent stack) := by
  induction inner generalizing stack with
  | nil => exact h
  | cons c rest ih =>
    exact ih (fun d hd => hinner d (List.mem_cons_of_mem _ hd))
      (h.push hb (hinner c (List.mem_cons_self ..)))

/-- The components that are left when dots are resolved. -/
def resolved (path : Path) : List Component := (path.components.foldl pushComponent []).reverse

theorem normalize_eq (path : Path) : path.normalize = ofComponents path.resolved := rfl

/-- The components behind the root or the single dot that may come first. -/
def inner (path : Path) : List Component := path.segments.filterMap Component.ofSegment?

/-- What lies under the names of a normal form: the root, or nothing. -/
def bottom (path : Path) : List Component := if path.isAbsolute then [.root] else []

theorem bottom_cases (path : Path) : path.bottom = [] ∨ path.bottom = [.root] := by
  unfold bottom
  split
  · exact .inr rfl
  · exact .inl rfl

/-- A normalization starts from the root or from nothing. A single dot at the start pushes nothing. -/
theorem resolved_eq (path : Path) :
    path.resolved = (path.inner.foldl pushComponent path.bottom).reverse := by
  unfold resolved components inner bottom
  split
  · rfl
  · split <;> rfl

/-- The names that are left on the stack stand behind the root, or behind nothing. -/
theorem exists_resolved_eq (path : Path) :
    ∃ names : List String, (∀ name ∈ names, IsName name) ∧
      path.resolved = path.bottom ++ names.map .normal := by
  have hstart : NormalStack path.bottom path.bottom := ⟨[], by simp, rfl⟩
  obtain ⟨names, hnames, hstack⟩ :=
    hstart.pushAll path.bottom_cases fun _ hc => isInner_of_mem_segments hc
  refine ⟨names.reverse, fun name hn => hnames name (List.mem_reverse.1 hn), ?_⟩
  have hreverse : path.bottom.reverse = path.bottom := by
    rcases path.bottom_cases with h | h <;> rw [h] <;> rfl
  rw [resolved_eq, inner, hstack, List.reverse_append, hreverse, List.map_reverse]

theorem normalComponents_resolved (path : Path) : NormalComponents path.resolved := by
  obtain ⟨names, hnames, hresolved⟩ := exists_resolved_eq path
  rw [hresolved]
  rcases path.bottom_cases with h | h <;> rw [h]
  · exact ⟨names, hnames, .inl rfl⟩
  · exact ⟨names, hnames, .inr rfl⟩

theorem components_normalize (path : Path) : path.normalize.components = path.resolved := by
  rw [normalize_eq, components_ofComponents (normalComponents_resolved path).wellFormed]

theorem isAbsolute_normalize (path : Path) : path.normalize.isAbsolute = path.isAbsolute := by
  obtain ⟨names, -, hresolved⟩ := exists_resolved_eq path
  rw [Bool.eq_iff_iff, isAbsolute_iff, components_normalize, hresolved, bottom]
  split
  · rename_i h
    simp [h]
  · rename_i h
    cases names <;> simp [h]

/-- What is read from an absolute directory is absolute. -/
theorem isAbsolute_absoluteFrom {directory : Path} (h : directory.isAbsolute = true) (path : Path) :
    (path.absoluteFrom directory).isAbsolute = true := by
  rw [absoluteFrom, isAbsolute_normalize]
  exact isAbsolute_join h path

theorem foldl_pushComponent_names (names : List String) (stack : List Component) :
    (names.map Component.normal).foldl pushComponent stack =
      (names.map Component.normal).reverse ++ stack := by
  induction names generalizing stack with
  | nil => rfl
  | cons name rest ih => simp [pushComponent, ih]

theorem NormalComponents.foldl_push {written : List Component} (h : NormalComponents written) :
    written.foldl pushComponent [] = written.reverse := by
  obtain ⟨names, -, rfl | rfl⟩ := h
  · simp [foldl_pushComponent_names]
  · simp [pushComponent, foldl_pushComponent_names]

/-- A path that is its own normal form. -/
def IsNormal (path : Path) : Prop := path.normalize = path

theorem resolved_normalize (path : Path) : path.normalize.resolved = path.resolved := by
  rw [resolved, components_normalize, (normalComponents_resolved path).foldl_push,
    List.reverse_reverse]

/-- Normalizing a second time changes nothing. -/
theorem isNormal_normalize (path : Path) : path.normalize.IsNormal := by
  rw [IsNormal, normalize_eq, resolved_normalize, ← normalize_eq]

/-- Normal forms with the same components are spelled alike. -/
theorem IsNormal.eq_of_components {path other : Path} (hp : path.IsNormal) (ho : other.IsNormal)
    (h : path.components = other.components) : path = other := by
  rw [← hp, ← ho, normalize_eq, normalize_eq, resolved, resolved, h]

end EsmCompletion.Path
