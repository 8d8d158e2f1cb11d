import EsmCompletion.Proofs.Cache.Run
import EsmCompletion.Proofs.Imports.Aliases
import EsmCompletion.Proofs.Session.Uncached

/-! # A faithful cache does not show

A cache is faithful to some trees of files if a record that is as old as its file says what that
file exports, whichever of the trees it is in. As long as equal times mean equal contents,
fetching keeps this, and every answer is the one without a cache. Only normal forms are fetched by
requests; two of them that share a record are the same path, and so have the same name to show in
a fault. -/

namespace EsmCompletion

/-- What a path leads to is the same in two trees if it has the same time in both. -/
def FileTree.TimesAgree (tree other : FileTree) : Prop :=
  ∀ path entry entry', tree.find path = .ok entry → other.find path = .ok entry' →
    entry.modified = entry'.modified → entry.content = entry'.content

/-- Equal times mean equal contents, throughout some trees. -/
def FileTree.TimesTell (trees : List FileTree) : Prop :=
  ∀ tree ∈ trees, ∀ other ∈ trees, tree.TimesAgree other

theorem FileTree.TimesAgree.hasText {tree other : FileTree} (h : tree.TimesAgree other)
    {path : Path} {modified : Timestamp} {text : String} {entry : Entry}
    (ht : tree.HasText path modified text) (hf : other.find path = .ok entry)
    (hm : modified = entry.modified) : other.HasText path entry.modified text := by
  obtain ⟨bytes, hb, hd⟩ := ht
  obtain ⟨content, time⟩ := entry
  obtain rfl : .file bytes = content := h path _ _ hb hf hm
  exact ⟨bytes, hf, hd⟩

theorem FileTree.timesTell_singleton (tree : FileTree) : TimesTell [tree] := by
  intro first hfirst second hsecond path entry entry' hf hf' _
  cases List.mem_singleton.1 hfirst
  cases List.mem_singleton.1 hsecond
  rw [hf] at hf'
  cases hf'
  rfl

/-- Contents that can be told from the times alone. -/
theorem FileTree.timesTell_of_content {trees : List FileTree} (content : Timestamp → Content)
    (h : ∀ tree ∈ trees, ∀ location entry, tree.entryAt? location = some entry →
      entry.content = content entry.modified) : TimesTell trees := by
  intro tree ht other ho path entry entry' hf hf' hm
  obtain ⟨location, -, he⟩ := find_eq_ok.1 hf
  obtain ⟨location', -, he'⟩ := find_eq_ok.1 hf'
  rw [h tree ht location entry he, h other ho location' entry' he', hm]

namespace ModuleCache

/-- The records that are as old as their files say what these export, in each of some trees. -/
def Faithful (cache : ModuleCache) (trees : List FileTree) : Prop :=
  ∀ tree ∈ trees, ∀ path record entry, path.IsNormal → cache.get? path = some record →
    tree.find path = .ok entry → record.modified = entry.modified →
    Uncached.exports tree path = .ok record.exports

theorem faithful_of_isEmpty {cache : ModuleCache} (h : cache.isEmpty = true)
    (trees : List FileTree) : cache.Faithful trees := by
  obtain ⟨records, parses⟩ := cache
  obtain rfl : records = [] := List.isEmpty_iff.1 h
  intro tree _ path record entry _ hg
  cases hg

theorem faithful_empty (trees : List FileTree) : empty.Faithful trees :=
  faithful_of_isEmpty rfl trees

variable {cache : ModuleCache} {trees : List FileTree} {tree : FileTree}

theorem Faithful.store (h : cache.Faithful trees) (hs : FileTree.TimesTell trees)
    (ht : tree ∈ trees) {path : Path} (hn : path.IsNormal) {modified : Timestamp} {text : String}
    {exports : ExportMap} (hx : tree.HasText path modified text)
    (he : exportsOf text path.shownName = .ok exports) :
    (cache.store path ⟨modified, exports⟩).Faithful trees := by
  intro other hother path' record entry hn' hg hf hm
  rw [get?_store] at hg
  split at hg
  · rename_i hc
    cases hg
    obtain rfl := hn.eq_of_components hn' hc
    have hx' := (hs tree ht other hother).hasText hx hf hm
    rw [Uncached.exports_of_hasText hx', he]
    rfl
  · exact h other hother path' record entry hn' hg hf hm

/-- A fetch is answered as without the cache, and the cache stays faithful. -/
theorem Faithful.exports (h : cache.Faithful trees) (hs : FileTree.TimesTell trees)
    (ht : tree ∈ trees) {path : Path} (hn : path.IsNormal) :
    (cache.exports tree path).answer = Uncached.exports tree path ∧
      (cache.exports tree path).cache.Faithful trees := by
  have hfetch := fetch_exports cache tree path
  generalize cache.exports tree path = outcome at hfetch
  cases hfetch with
  | missing hf => exact ⟨(Uncached.exports_of_missing hf).symm, h⟩
  | undated hf hne => exact ⟨(Uncached.exports_of_fault hf hne).symm, h⟩
  | hit hf hg hm => exact ⟨(h tree ht path _ _ hn hg hf hm).symm, h⟩
  | unreadable hf _ hr => exact ⟨(Uncached.exports_of_unreadable hf hr).symm, h⟩
  | malformed hx _ he =>
    rw [Uncached.exports_of_hasText hx, he]
    exact ⟨rfl, h⟩
  | parsed hx _ he =>
    rw [Uncached.exports_of_hasText hx, he]
    have hcounted : cache.counted.Faithful trees := h
    exact ⟨rfl, hcounted.store hs ht hn hx he⟩

variable {aliases : Aliases}

theorem Faithful.suggestFor (h : cache.Faithful trees) (hs : FileTree.TimesTell trees)
    (ht : tree ∈ trees) (ha : ∀ word path, aliases.get? word = some path → path.IsNormal)
    {line : String} {typed : DottedWord} (hl : DottedWord.ofLine? line = some typed) :
    (cache.suggestFor tree aliases typed).answer = Uncached.contribution tree aliases line ∧
      (cache.suggestFor tree aliases typed).cache.Faithful trees := by
  unfold ModuleCache.suggestFor Uncached.contribution
  rw [hl]
  simp only
  cases hg : aliases.get? typed.word with
  | none => exact ⟨rfl, h⟩
  | some path =>
    obtain ⟨hanswer, hcache⟩ := h.exports hs ht (ha _ _ hg)
    exact ⟨congrArg (Except.map (exportSuggestions · typed.member)) hanswer, hcache⟩

theorem Faithful.suggestAll (hs : FileTree.TimesTell trees) (ht : tree ∈ trees)
    (ha : ∀ word path, aliases.get? word = some path → path.IsNormal) (buffer : Buffer)
    (locations : List Nat) {cache : ModuleCache} (h : cache.Faithful trees) :
    (suggestAll tree aliases buffer locations cache).answer =
        Uncached.contributions tree aliases buffer locations ∧
      (suggestAll tree aliases buffer locations cache).cache.Faithful trees := by
  -- each location leaves a faithful cache for the next one; so does the one whose fault ends the
  -- request
  induction locations generalizing cache with
  | nil => exact ⟨rfl, h⟩
  | cons location rest ih =>
    rw [Uncached.contributions_cons, suggestAll_cons]
    cases hl : DottedWord.ofLine? (buffer.lineAt location) with
    | none =>
      obtain ⟨hanswer, hcache⟩ := ih h
      have hnothing : Uncached.contribution tree aliases (buffer.lineAt location) = .ok [] := by
        simp [Uncached.contribution, hl]
      refine ⟨?_, hcache⟩
      simp only [hanswer, hnothing, Except.bind, List.nil_append]
      cases Uncached.contributions tree aliases buffer rest <;> rfl
    | some typed =>
      obtain ⟨hfirst, hfaithful⟩ := h.suggestFor hs ht ha hl
      simp only
      rw [← hfirst]
      generalize cache.suggestFor tree aliases typed = first at hfaithful
      obtain ⟨after, answer, events⟩ := first
      cases answer with
      | error fault => exact ⟨rfl, hfaithful⟩
      | ok suggestions =>
        obtain ⟨hrest, hcache⟩ := ih hfaithful
        exact ⟨congrArg (Except.map (suggestions ++ ·)) hrest, hcache⟩

end ModuleCache

/-! ## Requests -/

namespace Session

@[simp] theorem configuration_after {α : Type} (session : Session) (outcome : Outcome α) :
    (session.after outcome).configuration = session.configuration := rfl

@[simp] theorem cache_after {α : Type} (session : Session) (outcome : Outcome α) :
    (session.after outcome).cache = outcome.cache := rfl

theorem faithful_new (configuration : Configuration) (trees : List FileTree) :
    (new configuration).cache.Faithful trees :=
  ModuleCache.faithful_empty trees

variable {session : Session} {trees : List FileTree} {tree : FileTree}

theorem suggestions_of_faithful (h : session.cache.Faithful trees)
    (hs : FileTree.TimesTell trees) (ht : tree ∈ trees) (buffer : Buffer) (locations : List Nat) :
    (session.suggestions tree buffer locations).answer =
        Uncached.suggestions session.configuration tree buffer locations ∧
      (session.suggestions tree buffer locations).cache.Faithful trees :=
  ModuleCache.Faithful.suggestAll hs ht (fun _ _ => Imports.isNormal_of_get?) buffer locations h

theorem query_of_faithful (h : session.cache.Faithful trees) (hs : FileTree.TimesTell trees)
    (ht : tree ∈ trees) (buffer : Buffer) (locations : List Nat) :
    (session.query tree buffer locations).answer =
        Uncached.query session.configuration tree buffer locations ∧
      (session.query tree buffer locations).cache.Faithful trees := by
  obtain ⟨hanswer, hcache⟩ := suggestions_of_faithful h hs ht buffer locations
  rw [query_eq]
  unfold Uncached.query
  cases buffer.file with
  | none => exact ⟨rfl, h⟩
  | some file =>
    simp only
    split
    · rw [← hanswer]
      generalize session.suggestions tree buffer locations = outcome at hcache
      obtain ⟨cache, answer, events⟩ := outcome
      cases answer <;> exact ⟨rfl, hcache⟩
    · exact ⟨rfl, h⟩

end Session

end EsmCompletion
