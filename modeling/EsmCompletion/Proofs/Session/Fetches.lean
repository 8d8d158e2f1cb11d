import EsmCompletion.Proofs.Session.Run

/-! # What a request fetches

All that a request does with the cache is to fetch modules: one for each location whose line asks
for one, up to the first that fails. So a run of a session is a run of its cache. While the files
stay as they are, a fetch does not change what any other is answered with, so each location of a
request is answered as it would be on its own. -/

namespace EsmCompletion

namespace ModuleCache

/-! ## Fetches in a row -/

/-- Fetches modules one after the other, whatever comes of it. -/
def fetchAll (tree : FileTree) : List Path → ModuleCache → Outcome Unit
  | [], cache => ⟨cache, (), []⟩
  | path :: rest, cache =>
    let first := cache.exports tree path
    let others := fetchAll tree rest first.cache
    ⟨others.cache, (), first.events ++ others.events⟩

/-- The modules that are fetched for locations. What comes behind a fault is not fetched. -/
def fetched (tree : FileTree) (aliases : Aliases) (buffer : Buffer) :
    List Nat → ModuleCache → List Path
  | [], _ => []
  | location :: rest, cache =>
    match Uncached.module? aliases (buffer.lineAt location) with
    | none => fetched tree aliases buffer rest cache
    | some path =>
      let first := cache.exports tree path
      match first.answer with
      | .error _ => [path]
      | .ok _ => path :: fetched tree aliases buffer rest first.cache

variable {tree : FileTree} {aliases : Aliases} {buffer : Buffer}

/-- The module that a location asks for comes first, and those of the rest follow if it can be
answered. -/
theorem fetched_cons (location : Nat) (rest : List Nat) (cache : ModuleCache) :
    fetched tree aliases buffer (location :: rest) cache =
      match DottedWord.ofLine? (buffer.lineAt location) with
      | none => fetched tree aliases buffer rest cache
      | some typed =>
        (aliases.get? typed.word).toList ++
          match (cache.suggestFor tree aliases typed).answer with
          | .error _ => []
          | .ok _ =>
            fetched tree aliases buffer rest (cache.suggestFor tree aliases typed).cache := by
  rw [fetched, Uncached.module?]
  cases DottedWord.ofLine? (buffer.lineAt location) with
  | none => rfl
  | some typed =>
    simp only [suggestFor, Option.bind_some]
    cases aliases.get? typed.word with
    | none => rfl
    | some path =>
      simp only [Outcome.map]
      cases (cache.exports tree path).answer <;> rfl

theorem mem_fetched {locations : List Nat} {cache : ModuleCache} {path : Path}
    (h : path ∈ fetched tree aliases buffer locations cache) :
    ∃ word, aliases.get? word = some path := by
  have halias {line : String} {path : Path} (hm : Uncached.module? aliases line = some path) :
      ∃ word, aliases.get? word = some path := by
    obtain ⟨typed, -, hg⟩ := Option.bind_eq_some_iff.1 hm
    exact ⟨typed.word, hg⟩
  induction locations generalizing cache with
  | nil => cases h
  | cons location rest ih =>
    rw [fetched] at h
    split at h
    · exact ih h
    · rename_i module hm
      simp only at h
      split at h
      · obtain rfl := List.mem_singleton.1 h
        exact halias hm
      · rcases List.mem_cons.1 h with rfl | h
        · exact halias hm
        · exact ih h

/-- Locations leave the cache and the events of the modules that are fetched for them. -/
theorem suggestAll_eq_fetchAll (locations : List Nat) (cache : ModuleCache) :
    (suggestAll tree aliases buffer locations cache).cache =
        (fetchAll tree (fetched tree aliases buffer locations cache) cache).cache ∧
      (suggestAll tree aliases buffer locations cache).events =
        (fetchAll tree (fetched tree aliases buffer locations cache) cache).events := by
  induction locations generalizing cache with
  | nil => exact ⟨rfl, rfl⟩
  | cons location rest ih =>
    rw [suggestAll_cons, fetched, Uncached.module?]
    cases hl : DottedWord.ofLine? (buffer.lineAt location) with
    | none => exact ih cache
    | some typed =>
      simp only [suggestFor, Option.bind_some]
      cases hg : aliases.get? typed.word with
      | none => exact ih cache
      | some path =>
        simp only [Outcome.map]
        cases (cache.exports tree path).answer with
        | error fault => simp [Except.map, fetchAll]
        | ok exports =>
          obtain ⟨hcache, hevents⟩ := ih (cache.exports tree path).cache
          simp [Except.map, fetchAll, hcache, hevents]

/-! ## Fetches do not disturb each other -/

/-- Two caches that answer alike, for the files as they are in a tree. -/
def Alike (tree : FileTree) (cache other : ModuleCache) : Prop :=
  ∀ path, path.IsNormal → (other.exports tree path).answer = (cache.exports tree path).answer

theorem Alike.refl (tree : FileTree) (cache : ModuleCache) : Alike tree cache cache :=
  fun _ _ => rfl

theorem Alike.trans {cache other third : ModuleCache} (h : Alike tree cache other)
    (h' : Alike tree other third) : Alike tree cache third :=
  fun path hn => (h' path hn).trans (h path hn)

/-- The answer for a path depends on the record of that path alone. -/
theorem answer_exports_congr {cache other : ModuleCache} {path : Path}
    (h : other.get? path = cache.get? path) :
    (other.exports tree path).answer = (cache.exports tree path).answer := by
  have hparse (modified : Timestamp) (text : String) :
      (other.parse path modified text).answer = (cache.parse path modified text).answer := by
    unfold parse
    cases exportsOf text path.shownName <;> rfl
  have hreload (modified : Timestamp) :
      (other.reload tree path modified).answer = (cache.reload tree path modified).answer := by
    unfold reload
    split
    · rfl
    · rfl
    · exact hparse modified _
  unfold exports
  rw [h]
  split
  · rfl
  · rfl
  · split
    · exact hreload _
    · split
      · rfl
      · exact hreload _

theorem alike_exports (cache : ModuleCache) {path : Path} (h : path.IsNormal) :
    Alike tree cache (cache.exports tree path).cache := by
  have hfetch := fetch_exports cache tree path
  generalize ho : cache.exports tree path = outcome at hfetch
  cases hfetch with
  | missing | undated | hit | unreadable => exact .refl tree cache
  | malformed => exact fun other _ => answer_exports_congr rfl
  | parsed hx =>
    intro other hn
    by_cases hc : path.components = other.components
    · -- the record that was stored is as old as the file
      obtain rfl := h.eq_of_components hn hc
      obtain ⟨bytes, hf, -⟩ := hx
      rw [ho]
      simp [exports, hf, get?_store]
    · refine answer_exports_congr ?_
      rw [get?_store, if_neg hc]
      rfl

end ModuleCache

/-! ## Requests -/

namespace Session

def Request.buffer : Request → Buffer
  | .suggestions buffer _ => buffer
  | .query buffer _ => buffer

/-- Whether requests of the editor that concern a buffer are looked into. -/
def accepts (session : Session) (buffer : Buffer) : Bool :=
  buffer.file.any session.configuration.isSource

/-- The modules that a request fetches. -/
def fetched (session : Session) (tree : FileTree) : Request → List Path
  | .suggestions buffer locations =>
    ModuleCache.fetched tree (session.aliases buffer) buffer locations session.cache
  | .query buffer locations =>
    if session.accepts buffer then
      ModuleCache.fetched tree (session.aliases buffer) buffer locations session.cache
    else []

variable {session : Session} {tree : FileTree} {buffer : Buffer}

/-- A request that is looked into is answered with suggestions unless there is a fault. -/
theorem query_of_accepts (h : session.accepts buffer = true) (locations : List Nat) :
    session.query tree buffer locations =
      match session.suggestions tree buffer locations with
      | ⟨cache, .ok suggestions, events⟩ => ⟨cache, some suggestions, events⟩
      | ⟨cache, .error fault, events⟩ => ⟨cache, none, events ++ [.requestFailed fault]⟩ := by
  unfold accepts at h
  rw [query_eq]
  cases hf : buffer.file with
  | none =>
    rw [hf] at h
    cases h
  | some file =>
    have hs : session.configuration.isSource file = true := by simpa [hf] using h
    simp only [hs, if_true]
    generalize session.suggestions tree buffer locations = outcome
    obtain ⟨cache, answer, events⟩ := outcome
    cases answer <;> rfl

/-- A request that is not looked into says why in the log. -/
theorem query_of_not_accepts (h : session.accepts buffer = false) (locations : List Nat) :
    session.query tree buffer locations =
      ⟨session.cache, none, [if buffer.file.isNone then .unsavedBuffer else .otherLanguage]⟩ := by
  unfold accepts at h
  rw [query_eq]
  cases hf : buffer.file with
  | none => rfl
  | some file =>
    have hs : session.configuration.isSource file = false := by simpa [hf] using h
    simp [hs]

theorem mem_fetched {request : Request} {path : Path} (h : path ∈ session.fetched tree request) :
    ∃ word, (session.aliases request.buffer).get? word = some path := by
  cases request with
  | suggestions => exact ModuleCache.mem_fetched h
  | query buffer locations =>
    rw [fetched] at h
    split at h
    · exact ModuleCache.mem_fetched h
    · cases h

theorem cache_reply (session : Session) (tree : FileTree) (request : Request) :
    (session.reply tree request).cache =
      (ModuleCache.fetchAll tree (session.fetched tree request) session.cache).cache := by
  have hall (buffer : Buffer) (locations : List Nat) :
      (session.suggestions tree buffer locations).cache = _ :=
    (ModuleCache.suggestAll_eq_fetchAll locations session.cache).1
  cases request with
  | suggestions buffer locations => exact hall buffer locations
  | query buffer locations =>
    rw [reply, fetched]
    split
    · rename_i h
      rw [query_of_accepts h, ← hall]
      generalize session.suggestions tree buffer locations = outcome
      obtain ⟨cache, answer, events⟩ := outcome
      cases answer <;> rfl
    · rename_i h
      rw [query_of_not_accepts (by simpa using h)]
      rfl

end Session

end EsmCompletion
