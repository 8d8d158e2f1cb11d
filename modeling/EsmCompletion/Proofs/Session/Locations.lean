import EsmCompletion.Proofs.Session.Notices
import EsmCompletion.Proofs.Session.Renewal

/-! # The locations of a request are independent

A request goes through its locations one after the other, each with the cache that those before it
leave. A fetch does not change what another is answered with, so each location has the answer that it
would have on its own; and as fetches that succeed renew what was due when they began, a request that
succeeds leaves the same cache in whatever order its locations come, and however often. -/

namespace EsmCompletion

/-- The modules that locations ask for. -/
def Uncached.asked (aliases : Aliases) (buffer : Buffer) (locations : List Nat) : List Path :=
  locations.filterMap fun location => module? aliases (buffer.lineAt location)

theorem faultOf?_eq_none_iff {α : Type} {answer : Except ModuleFault α} :
    faultOf? answer = none ↔ ∃ value, answer = .ok value := by
  cases answer <;> simp [faultOf?]

theorem faultOf?_eq_some_iff {α : Type} {answer : Except ModuleFault α} {fault : ModuleFault} :
    faultOf? answer = some fault ↔ answer = .error fault := by
  cases answer <;> simp [faultOf?]

namespace ModuleCache

variable {tree : FileTree} {aliases : Aliases} {buffer : Buffer}

/-! ## One location -/

/-- What a location is answered with when nothing else is asked for. -/
def alone (cache : ModuleCache) (tree : FileTree) (aliases : Aliases) (buffer : Buffer)
    (location : Nat) : Except ModuleFault (List Suggestion) :=
  (suggestAll tree aliases buffer [location] cache).answer

theorem answer_suggestAll_cons (location : Nat) (rest : List Nat) (cache : ModuleCache) :
    (suggestAll tree aliases buffer (location :: rest) cache).answer =
      (cache.alone tree aliases buffer location).bind fun first =>
        (suggestAll tree aliases buffer rest
          (suggestAll tree aliases buffer [location] cache).cache).answer.map (first ++ ·) := by
  simp only [alone, suggestAll_cons, suggestAll_nil]
  cases DottedWord.ofLine? (buffer.lineAt location) with
  | none =>
    simp only [Except.bind, List.nil_append]
    cases (suggestAll tree aliases buffer rest cache).answer <;> rfl
  | some typed =>
    simp only
    cases (cache.suggestFor tree aliases typed).answer with
    | error fault => rfl
    | ok first => simp [Except.map, Except.bind]

theorem alone_eq (cache : ModuleCache) (location : Nat) :
    cache.alone tree aliases buffer location =
      match DottedWord.ofLine? (buffer.lineAt location) with
      | none => .ok []
      | some typed => (cache.suggestFor tree aliases typed).answer := by
  simp only [alone, suggestAll_cons, suggestAll_nil]
  cases DottedWord.ofLine? (buffer.lineAt location) with
  | none => rfl
  | some typed =>
    simp only
    cases (cache.suggestFor tree aliases typed).answer with
    | error fault => rfl
    | ok first => simp [Except.map]

/-- A location that has an answer finds the module that it asks for. -/
theorem exists_exports_of_alone {cache : ModuleCache} {location : Nat} {path : Path}
    {group : List Suggestion} (h : cache.alone tree aliases buffer location = .ok group)
    (hm : Uncached.module? aliases (buffer.lineAt location) = some path) :
    ∃ exports, (cache.exports tree path).answer = .ok exports := by
  rw [← faultOf?_eq_none_iff, ← faultAt?_of_some hm]
  exact faultOf?_eq_none_iff.2 ⟨group, h⟩

variable (hn : ∀ word path, aliases.get? word = some path → path.IsNormal)

include hn

theorem alone_congr {cache other : ModuleCache} (h : Alike tree cache other) (location : Nat) :
    other.alone tree aliases buffer location = cache.alone tree aliases buffer location := by
  rw [alone_eq, alone_eq]
  cases DottedWord.ofLine? (buffer.lineAt location) with
  | none => rfl
  | some typed =>
    simp only [suggestFor]
    cases hg : aliases.get? typed.word with
    | none => rfl
    | some path => simp only [Outcome.map, h path (hn _ _ hg)]

/-! ## Several locations -/

omit hn in
theorem alike_fetchAll {paths : List Path} (hp : ∀ path ∈ paths, path.IsNormal)
    (cache : ModuleCache) : Alike tree cache (fetchAll tree paths cache).cache := by
  induction paths generalizing cache with
  | nil => exact .refl tree cache
  | cons path rest ih =>
    have hfirst : Alike tree cache (cache.exports tree path).cache :=
      alike_exports cache (hp path (List.mem_cons_self ..))
    exact hfirst.trans (ih (fun other ho => hp other (List.mem_cons_of_mem _ ho)) _)

theorem alike_suggestAll (locations : List Nat) (cache : ModuleCache) :
    Alike tree cache (suggestAll tree aliases buffer locations cache).cache := by
  rw [(suggestAll_eq_fetchAll locations cache).1]
  refine alike_fetchAll (fun path hp => ?_) cache
  obtain ⟨word, hg⟩ := mem_fetched hp
  exact hn word path hg

/-- The answer to several locations is made of the answers that each would have on its own. -/
theorem answer_suggestAll {locations : List Nat} {cache other : ModuleCache}
    (h : Alike tree cache other) {group : Nat → List Suggestion}
    (hg : ∀ location ∈ locations,
      cache.alone tree aliases buffer location = .ok (group location)) :
    (suggestAll tree aliases buffer locations other).answer = .ok (locations.flatMap group) := by
  induction locations generalizing other with
  | nil => rfl
  | cons location rest ih =>
    have hnext : Alike tree cache (suggestAll tree aliases buffer [location] other).cache :=
      h.trans (alike_suggestAll hn [location] other)
    rw [answer_suggestAll_cons, alone_congr hn h, hg location (List.mem_cons_self ..), Except.bind,
      ih hnext fun later hl => hg later (List.mem_cons_of_mem _ hl)]
    rfl

/-- If each location has an answer on its own, all modules that they ask for are fetched. -/
theorem fetched_of_alone {locations : List Nat} {cache other : ModuleCache}
    (h : Alike tree cache other)
    (hg : ∀ location ∈ locations, ∃ group,
      cache.alone tree aliases buffer location = .ok group) :
    fetched tree aliases buffer locations other = Uncached.asked aliases buffer locations := by
  induction locations generalizing other with
  | nil => rfl
  | cons location rest ih =>
    have hrest : ∀ later ∈ rest, ∃ group, cache.alone tree aliases buffer later = .ok group :=
      fun later hl => hg later (List.mem_cons_of_mem _ hl)
    rw [fetched, Uncached.asked, List.filterMap_cons, ← Uncached.asked]
    cases hm : Uncached.module? aliases (buffer.lineAt location) with
    | none => exact ih h hrest
    | some path =>
      have hpath := isNormal_of_module? hn hm
      obtain ⟨group, halone⟩ := hg location (List.mem_cons_self ..)
      obtain ⟨exports, he⟩ := exists_exports_of_alone halone hm
      simp only [h path hpath, he, ih (h.trans (alike_exports other hpath)) hrest]

/-- Locations that have answers on their own renew the modules that they ask for. -/
theorem renewed_suggestAll {locations : List Nat} {cache : ModuleCache}
    (hg : ∀ location ∈ locations, ∃ group,
      cache.alone tree aliases buffer location = .ok group) :
    Renewed tree cache (Uncached.asked aliases buffer locations)
      (suggestAll tree aliases buffer locations cache).cache := by
  rw [(suggestAll_eq_fetchAll locations cache).1, fetched_of_alone hn (.refl tree cache) hg]
  refine (Renewed.refl tree cache).fetchAll (fun path hp => ?_) fun path hp => ?_
  · obtain ⟨location, -, hm⟩ := List.mem_filterMap.1 hp
    exact isNormal_of_module? hn hm
  · obtain ⟨location, hl, hm⟩ := List.mem_filterMap.1 hp
    obtain ⟨group, halone⟩ := hg location hl
    exact exists_exports_of_alone halone hm

/-- The same locations leave the same cache, in whatever order and however often they come. -/
theorem sameRecords_suggestAll {locations others : List Nat} {cache : ModuleCache}
    (hg : ∀ location ∈ locations, ∃ group,
      cache.alone tree aliases buffer location = .ok group)
    (ho : ∀ location, location ∈ others ↔ location ∈ locations) :
    SameRecords (suggestAll tree aliases buffer locations cache).cache
      (suggestAll tree aliases buffer others cache).cache := by
  have hothers : ∀ location ∈ others, ∃ group,
      cache.alone tree aliases buffer location = .ok group :=
    fun location hm => hg location ((ho location).1 hm)
  refine (renewed_suggestAll hn hg).same (renewed_suggestAll hn hothers)
    (fun path hp => ?_) fun path => ?_
  · obtain ⟨location, -, hm⟩ := List.mem_filterMap.1 hp
    exact isNormal_of_module? hn hm
  · simp only [Uncached.asked, List.mem_filterMap, ho]

/-- Several locations have an answer if each has one on its own, and else the fault of the first that
has none. -/
theorem suggestAll_succeeds_iff (locations : List Nat) (cache : ModuleCache) :
    (∃ list, (suggestAll tree aliases buffer locations cache).answer = .ok list) ↔
      ∀ location ∈ locations, ∃ group,
        cache.alone tree aliases buffer location = .ok group := by
  rw [← faultOf?_eq_none_iff, faultOf?_suggestAll hn locations (.refl tree cache),
    List.findSome?_eq_none_iff]
  simp only [← faultOf?_eq_none_iff]
  rfl

theorem exists_of_suggestAll_error {locations : List Nat} {cache : ModuleCache}
    {fault : ModuleFault}
    (h : (suggestAll tree aliases buffer locations cache).answer = .error fault) :
    ∃ before location after, locations = before ++ location :: after ∧
      (∀ earlier ∈ before, ∃ group, cache.alone tree aliases buffer earlier = .ok group) ∧
      cache.alone tree aliases buffer location = .error fault := by
  rw [← faultOf?_eq_some_iff, faultOf?_suggestAll hn locations (.refl tree cache),
    List.findSome?_eq_some_iff] at h
  obtain ⟨before, location, after, hsplit, hfault, hbefore⟩ := h
  exact ⟨before, location, after, hsplit,
    fun earlier he => faultOf?_eq_none_iff.1 (hbefore earlier he), faultOf?_eq_some_iff.1 hfault⟩

end ModuleCache

namespace Session

theorem answer_suggestions (session : Session) (tree : FileTree) (buffer : Buffer)
    (locations : List Nat) :
    (session.suggestions tree buffer locations).answer =
      (ModuleCache.suggestAll tree (session.aliases buffer) buffer locations
        session.cache).answer := rfl

theorem answer_suggestions_singleton (session : Session) (tree : FileTree) (buffer : Buffer)
    (location : Nat) :
    (session.suggestions tree buffer [location]).answer =
      session.cache.alone tree (session.aliases buffer) buffer location :=
  session.answer_suggestions tree buffer [location]

theorem cache_suggestions (session : Session) (tree : FileTree) (buffer : Buffer)
    (locations : List Nat) :
    (session.suggestions tree buffer locations).cache =
      (ModuleCache.suggestAll tree (session.aliases buffer) buffer locations
        session.cache).cache := rfl

/-- The locations of a request do not influence each other, whatever the cache. The request succeeds if
and only if each location does on its own, and then has their answers one after the other. It counts
a parse for each module that was asked for, is there, and had no record of its time; and a request
for the same locations in another order, or for some of them more often, leaves the same cache. If the
request fails, it does so with the fault of the first location that fails on its own. -/
theorem locations_are_independent (session : Session) (tree : FileTree) (buffer : Buffer)
    (locations : List Nat) :
    let request := session.suggestions tree buffer
    let asked := Uncached.asked (session.aliases buffer) buffer locations
    ((∃ list, (request locations).answer = .ok list) ↔
        ∀ location ∈ locations, ∃ group, (request [location]).answer = .ok group) ∧
      (∀ list, (request locations).answer = .ok list →
        (request locations).cache.parses =
            session.cache.parses + (session.cache.due tree asked).card ∧
          ∃ group : Nat → List Suggestion,
            (∀ location ∈ locations, (request [location]).answer = .ok (group location)) ∧
            list = locations.flatMap group ∧
            ∀ others, (∀ location, location ∈ others ↔ location ∈ locations) →
              (request others).answer = .ok (others.flatMap group) ∧
                (request locations).cache.SameRecords (request others).cache) ∧
      ∀ fault, (request locations).answer = .error fault →
        ∃ before location after, locations = before ++ location :: after ∧
          (∀ earlier ∈ before, ∃ group, (request [earlier]).answer = .ok group) ∧
          (request [location]).answer = .error fault := by
  intro request asked
  have hn := session.isNormal_alias buffer
  simp only [request, answer_suggestions_singleton, cache_suggestions]
  simp only [answer_suggestions]
  have hiff : (∃ list, (ModuleCache.suggestAll tree (session.aliases buffer) buffer locations
      session.cache).answer = .ok list) ↔ ∀ location ∈ locations, ∃ group,
        session.cache.alone tree (session.aliases buffer) buffer location = .ok group :=
    ModuleCache.suggestAll_succeeds_iff hn locations session.cache
  refine ⟨hiff, fun list hl => ?_, fun fault => ModuleCache.exists_of_suggestAll_error hn⟩
  have hall := hiff.1 ⟨list, hl⟩
  refine ⟨(ModuleCache.renewed_suggestAll hn hall).parses, ?_⟩
  have hsame {others : List Nat} (ho : ∀ location, location ∈ others ↔ location ∈ locations) :=
    ModuleCache.sameRecords_suggestAll hn hall ho
  choose! group hgroup using hall
  have hanswer {others : List Nat} (ho : ∀ location ∈ others, location ∈ locations) :
      (ModuleCache.suggestAll tree (session.aliases buffer) buffer others session.cache).answer =
        .ok (others.flatMap group) :=
    ModuleCache.answer_suggestAll hn (.refl tree session.cache)
      fun location hm => hgroup location (ho location hm)
  refine ⟨group, hgroup, ?_, fun others ho => ⟨hanswer fun location => (ho location).1, hsame ho⟩⟩
  exact Except.ok.inj (hl.symm.trans (hanswer fun _ => id))

/-- Two places that ask for one module, in two orders, one of them twice. -/
theorem locations_of_oneModule :
    let request := (new {}).suggestions (.oneModule "export let a = 1;" ⟨5, 0⟩)
      ⟨"import * as A from './a.js'\nA.a\nA.b", some ⟨"/m/main.js"⟩⟩
    (request [31, 35, 31]).answer = .ok [⟨"a\ta.js", "a"⟩, ⟨"a\ta.js", "a"⟩] ∧
      (request [31, 35, 31]).cache.parses = 1 ∧
      (request [31, 35, 31]).cache.SameRecords (request [35, 31]).cache := by
  intro request
  have hanswer : (request [31, 35, 31]).answer = .ok [⟨"a\ta.js", "a"⟩, ⟨"a\ta.js", "a"⟩] := by
    decide +kernel
  obtain ⟨-, hsuccess, -⟩ := locations_are_independent (new {})
    (.oneModule "export let a = 1;" ⟨5, 0⟩)
    ⟨"import * as A from './a.js'\nA.a\nA.b", some ⟨"/m/main.js"⟩⟩ [31, 35, 31]
  obtain ⟨hparses, group, -, -, hothers⟩ := hsuccess _ hanswer
  exact ⟨hanswer, hparses.trans (by decide +kernel), (hothers [35, 31] (by simp)).2⟩

end Session

end EsmCompletion
