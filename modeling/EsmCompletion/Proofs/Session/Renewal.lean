import EsmCompletion.Proofs.Cache.Accounting
import EsmCompletion.Proofs.Session.Fetches

/-! # What fetches renew

A path is due for a cache if it leads somewhere and no record has the time of what is there. Fetches
that succeed, with the files as they are, renew the record of each path that was due when they began,
once, and keep all other records. So what they leave depends neither on their order nor on how often
a path is fetched. -/

namespace EsmCompletion

/-- The record that the file of a path is good for. -/
def FileTree.record? (tree : FileTree) (path : Path) : Option ParsedModule :=
  match tree.find path, tree.readText path with
  | .ok entry, .ok text =>
    match exportsOf text path.shownName with
    | .ok exports => some ⟨entry.modified, exports⟩
    | .error _ => none
  | _, _ => none

namespace ModuleCache

/-- Whether a path leads somewhere, and no record has the time of what is there. -/
def isDue (cache : ModuleCache) (tree : FileTree) (path : Path) : Bool :=
  match tree.find path with
  | .ok entry => (cache.get? path).all (·.modified ≠ entry.modified)
  | .error _ => false

/-- Those of some paths that are due, without their spelling. -/
def due (cache : ModuleCache) (tree : FileTree) (paths : List Path) :
    Finset (List Path.Component) :=
  ((paths.filter (cache.isDue tree)).map Path.components).toFinset

variable {cache other : ModuleCache} {tree : FileTree} {path : Path}

/-! ## One fetch -/

theorem isDue_iff {entry : Entry} (hf : tree.find path = .ok entry) :
    cache.isDue tree path = true ↔ cache.Stale path entry.modified := by
  unfold isDue Stale
  rw [hf]
  cases cache.get? path <;> simp

theorem isDue_congr (h : other.get? path = cache.get? path) :
    other.isDue tree path = cache.isDue tree path := by
  unfold isDue
  rw [h]

/-- A path whose record was renewed is not due. -/
theorem isDue_of_record? {record : ParsedModule} (hr : tree.record? path = some record)
    (hg : cache.get? path = some record) : cache.isDue tree path = false := by
  unfold FileTree.record? at hr
  unfold isDue
  split at hr
  · rename_i entry text hf _
    cases he : exportsOf text path.shownName with
    | error error => simp [he] at hr
    | ok exports =>
      obtain rfl : ⟨entry.modified, exports⟩ = record := by simpa [he] using hr
      simp [hf, hg]
  · cases hr

/-- A fetch that succeeds renews the record of a path that is due, and else changes nothing. -/
theorem cache_exports_of_ok {exports : ExportMap}
    (h : (cache.exports tree path).answer = .ok exports) :
    (cache.isDue tree path = true ∧ ∃ record, tree.record? path = some record ∧
        (cache.exports tree path).cache = cache.counted.store path record) ∨
      cache.isDue tree path = false ∧ (cache.exports tree path).cache = cache := by
  have hfetch := fetch_exports cache tree path
  generalize cache.exports tree path = outcome at h hfetch
  cases hfetch with
  | missing hf => exact .inr ⟨by simp [isDue, hf], rfl⟩
  | undated | unreadable | malformed => cases h
  | hit hf hg hm => exact .inr ⟨by simp [isDue, hf, hg, hm], rfl⟩
  | parsed ht hs he =>
    have hr := ht.readText
    obtain ⟨bytes, hf, -⟩ := ht
    exact .inl ⟨(isDue_iff hf).2 hs, _, by simp [FileTree.record?, hf, hr, he], rfl⟩

/-! ## Paths that are due -/

theorem mem_due {paths : List Path} {components : List Path.Component} :
    components ∈ cache.due tree paths ↔
      ∃ path ∈ paths, cache.isDue tree path = true ∧ path.components = components := by
  simp [due, and_assoc]

theorem due_congr {paths others : List Path} (h : ∀ path, path ∈ paths ↔ path ∈ others) :
    cache.due tree paths = cache.due tree others := by
  ext components
  simp only [mem_due, h]

theorem due_concat (paths : List Path) (path : Path) :
    cache.due tree (paths ++ [path]) =
      if cache.isDue tree path then insert path.components (cache.due tree paths)
      else cache.due tree paths := by
  by_cases h : cache.isDue tree path = true <;> simp [due, h]

/-- Those of some paths that no record is kept for. -/
def unrecorded (cache : ModuleCache) (paths : Finset (List Path.Component)) :
    Finset (List Path.Component) :=
  paths.filter fun components => (findRecord? components cache.records).isNone

theorem card_unrecorded_insert {paths : Finset (List Path.Component)}
    (h : path.components ∉ paths) :
    (cache.unrecorded (insert path.components paths)).card =
      (cache.unrecorded paths).card + if (cache.get? path).isNone then 1 else 0 := by
  unfold unrecorded get?
  rw [Finset.filter_insert]
  split
  · rw [Finset.card_insert_of_notMem fun hm => h (Finset.mem_filter.1 hm).1]
  · rfl

theorem size_store (cache : ModuleCache) (path : Path) (record : ParsedModule) :
    (cache.store path record).size =
      cache.size + if (cache.get? path).isNone then 1 else 0 := by
  refine (length_storeRecord path record cache.records).trans ?_
  unfold get?
  cases findRecord? path.components cache.records <;> rfl

/-! ## Fetches in a row -/

/-- Two caches with the same records and the same count. -/
structure SameRecords (cache other : ModuleCache) : Prop where
  found : ∀ path, other.get? path = cache.get? path
  size : other.size = cache.size
  parses : other.parses = cache.parses

/-- A cache in which the paths that were due at the start have new records, and all else is as it was.
-/
structure Renewed (tree : FileTree) (start : ModuleCache) (paths : List Path)
    (cache : ModuleCache) : Prop where
  alike : Alike tree start cache
  kept : ∀ path, path.components ∉ start.due tree paths → cache.get? path = start.get? path
  renewed : ∀ path, path.IsNormal → path.components ∈ start.due tree paths →
    ∃ record, tree.record? path = some record ∧ cache.get? path = some record
  size : cache.size = start.size + (start.unrecorded (start.due tree paths)).card
  parses : cache.parses = start.parses + (start.due tree paths).card

theorem Renewed.refl (tree : FileTree) (cache : ModuleCache) : Renewed tree cache [] cache :=
  ⟨.refl tree cache, fun _ _ => rfl, nofun, rfl, rfl⟩

variable {start : ModuleCache} {paths others : List Path}

theorem Renewed.congr (h : Renewed tree start paths cache)
    (hset : start.due tree others = start.due tree paths) : Renewed tree start others cache := by
  obtain ⟨halike, hkept, hrenewed, hsize, hparses⟩ := h
  rw [← hset] at hkept hrenewed hsize hparses
  exact ⟨halike, hkept, hrenewed, hsize, hparses⟩

/-- A path is due as long as it was due at the start and was not fetched since. -/
theorem Renewed.isDue_iff (h : Renewed tree start paths cache) (hn : path.IsNormal) :
    cache.isDue tree path = true ↔
      start.isDue tree path = true ∧ path.components ∉ start.due tree paths := by
  by_cases hm : path.components ∈ start.due tree paths
  · obtain ⟨record, hr, hg⟩ := h.renewed path hn hm
    simp [hm, isDue_of_record? hr hg]
  · simp [hm, isDue_congr (h.kept path hm)]

theorem Renewed.fetch (h : Renewed tree start paths cache) (hn : path.IsNormal)
    {exports : ExportMap} (ha : (start.exports tree path).answer = .ok exports) :
    Renewed tree start (paths ++ [path]) (cache.exports tree path).cache := by
  rcases cache_exports_of_ok ((h.alike path hn).trans ha) with
    ⟨hdue, record, hr, hcache⟩ | ⟨hdue, hcache⟩
  · obtain ⟨hstart, hnew⟩ := (h.isDue_iff hn).1 hdue
    have hset : start.due tree (paths ++ [path]) =
        insert path.components (start.due tree paths) := by
      rw [due_concat, if_pos hstart]
    have halike := h.alike.trans (alike_exports cache hn)
    rw [hcache] at halike ⊢
    refine ⟨halike, fun other ho => ?_, fun other hno ho => ?_, ?_, ?_⟩
    · rw [hset, Finset.mem_insert, not_or] at ho
      rw [get?_store, if_neg (Ne.symm ho.1)]
      exact h.kept other ho.2
    · by_cases hc : path.components = other.components
      · obtain rfl := hn.eq_of_components hno hc
        exact ⟨record, hr, by simp [get?_store]⟩
      · rw [hset, Finset.mem_insert] at ho
        rw [get?_store, if_neg hc]
        exact h.renewed other hno (ho.resolve_left (Ne.symm hc))
    · have hsize : cache.counted.size = cache.size := rfl
      have hget : cache.counted.get? path = start.get? path := h.kept path hnew
      rw [size_store, hsize, hget, h.size, hset, card_unrecorded_insert hnew, Nat.add_assoc]
    · rw [hset, Finset.card_insert_of_notMem hnew, ← Nat.add_assoc, ← h.parses]
      rfl
  · have hset : start.due tree (paths ++ [path]) = start.due tree paths := by
      rw [due_concat]
      split
      · rename_i hstart
        refine Finset.insert_eq_of_mem ?_
        by_contra hnew
        rw [(h.isDue_iff hn).2 ⟨hstart, hnew⟩] at hdue
        cases hdue
      · rfl
    rw [hcache]
    exact h.congr hset

/-- Fetches that succeed renew what was due when they began. -/
theorem Renewed.fetchAll {more : List Path} (hn : ∀ path ∈ more, path.IsNormal)
    (ha : ∀ path ∈ more, ∃ exports, (start.exports tree path).answer = .ok exports)
    {paths : List Path} {cache : ModuleCache} (h : Renewed tree start paths cache) :
    Renewed tree start (paths ++ more) (fetchAll tree more cache).cache := by
  induction more generalizing paths cache with
  | nil => simpa [ModuleCache.fetchAll] using h
  | cons path rest ih =>
    obtain ⟨exports, hok⟩ := ha path (List.mem_cons_self ..)
    have hfirst := h.fetch (hn path (List.mem_cons_self ..)) hok
    have hrest := ih (fun other ho => hn other (List.mem_cons_of_mem _ ho))
      (fun other ho => ha other (List.mem_cons_of_mem _ ho)) hfirst
    rwa [List.append_assoc] at hrest

/-- What fetches leave depends on the paths that are fetched, not on their order or their number. -/
theorem Renewed.same (h : Renewed tree start paths cache)
    (ho : Renewed tree start others other) (hn : ∀ path ∈ paths, path.IsNormal)
    (hm : ∀ path, path ∈ others ↔ path ∈ paths) : SameRecords cache other := by
  have hset : start.due tree others = start.due tree paths := due_congr hm
  refine ⟨fun path => ?_, ?_, ?_⟩
  · by_cases hc : path.components ∈ start.due tree paths
    · obtain ⟨known, hk, -, hsame⟩ := mem_due.1 hc
      have hget (cache : ModuleCache) : cache.get? path = cache.get? known := by
        rw [get?, get?, hsame]
      obtain ⟨record, hr, hg⟩ := h.renewed known (hn known hk) (hsame ▸ hc)
      obtain ⟨record', hr', hg'⟩ := ho.renewed known (hn known hk) (by rwa [hset, hsame])
      obtain rfl := Option.some.inj (hr.symm.trans hr')
      rw [hget, hget, hg, hg']
    · rw [h.kept path hc, ho.kept path (by rwa [hset])]
  · rw [h.size, ho.size, hset]
  · rw [h.parses, ho.parses, hset]

end ModuleCache

end EsmCompletion
