import EsmCompletion.Proofs.Log.Frame
import EsmCompletion.Proofs.Session.Fetches

/-! # The files that a request reads

A request reads the modules that it fetches, and nothing else: a change to any other file is not
noticed, not even one that is made in its course, as by the log that is written meanwhile. With a
faithful cache the files alone tell which modules these are: those that the locations name, up to and
including the first that cannot be answered. -/

namespace EsmCompletion

/-! ## The course of the files -/

/-- In the course of a request there is a change to one file at most. -/
def FileCourse.KeepsBesides (files : FileCourse) (file : Option Location) (tree : FileTree) : Prop :=
  ∀ events, FileTree.SameBesides file tree (files events)

theorem FileCourse.KeepsBesides.behind {files : FileCourse} {file : Option Location}
    {tree : FileTree} (h : files.KeepsBesides file tree) (events : List Log.Event) :
    (files.behind events).KeepsBesides file tree :=
  fun more => h (events ++ more)

/-- A journal changes its own file at most. -/
theorem Log.Journal.keepsBesides {journal : Log.Journal} {tree other : FileTree}
    (h : FileTree.SameBesides journal.file tree other) :
    FileCourse.KeepsBesides (journal.writeAll other) journal.file tree :=
  fun events => h.trans (journal.writeAll_sameBesides other events)

namespace ModuleCache

variable {file : Option Location} {tree other : FileTree} {files : FileCourse} {aliases : Aliases}
  {buffer : Buffer}

theorem suggestFor_eq (h : FileTree.SameBesides file tree other) (cache : ModuleCache)
    (typed : DottedWord) (ha : ∀ path, aliases.get? typed.word = some path →
      tree.Avoids file path) :
    cache.suggestFor other aliases typed = cache.suggestFor tree aliases typed := by
  unfold suggestFor
  cases hg : aliases.get? typed.word with
  | none => rfl
  | some path => simp only [h.exports_eq (ha path hg)]

/-- Locations are answered as if no file changed. -/
theorem suggestAllAlong_eq (h : files.KeepsBesides file tree) (locations : List Nat)
    {cache : ModuleCache}
    (ha : ∀ path ∈ fetched tree aliases buffer locations cache, tree.Avoids file path) :
    suggestAllAlong aliases buffer locations files cache =
      suggestAll tree aliases buffer locations cache := by
  induction locations generalizing files cache with
  | nil => rfl
  | cons location rest ih =>
    rw [fetched_cons] at ha
    rw [suggestAllAlong, suggestAll_cons]
    cases hl : DottedWord.ofLine? (buffer.lineAt location) with
    | none =>
      rw [hl] at ha
      exact ih h ha
    | some typed =>
      simp only [hl] at ha ⊢
      have hfirst : cache.suggestFor (files []) aliases typed =
          cache.suggestFor tree aliases typed :=
        suggestFor_eq (h []) cache typed fun path hg => ha path (by simp [hg])
      rw [hfirst]
      cases hs : (cache.suggestFor tree aliases typed).answer with
      | error fault => rfl
      | ok suggestions =>
        rw [hs] at ha
        simp only
        rw [ih (h.behind _) fun path hm => ha path (List.mem_append_right _ hm)]

/-- With a faithful cache, the modules that are fetched are those that are read without a cache. -/
theorem fetched_eq_modules (hn : ∀ word path, aliases.get? word = some path → path.IsNormal)
    (locations : List Nat) {cache : ModuleCache} (hc : cache.Faithful [tree]) :
    fetched tree aliases buffer locations cache =
      Uncached.modules tree aliases buffer locations := by
  induction locations generalizing cache with
  | nil => rfl
  | cons location rest ih =>
    rw [fetched_cons, Uncached.modules, Uncached.module?]
    cases hl : DottedWord.ofLine? (buffer.lineAt location) with
    | none => simp [Uncached.contribution, hl, ih hc]
    | some typed =>
      obtain ⟨hanswer, hfaithful⟩ :=
        hc.suggestFor tree.timesTell_singleton (List.mem_singleton.2 rfl) hn hl
      cases hs : Uncached.contribution tree aliases (buffer.lineAt location) with
      | error fault => simp [hanswer, hs]
      | ok suggestions => simp [hanswer, hs, ih hfaithful]

end ModuleCache

namespace Session

variable {file : Option Location} {tree : FileTree} {files : FileCourse} {session : Session}
  {buffer : Buffer} {locations : List Nat}

/-- A request is answered as if no file changed. -/
theorem queryAlong_eq (h : files.KeepsBesides file tree)
    (ha : ∀ path ∈ session.fetched tree (.query buffer locations), tree.Avoids file path) :
    session.queryAlong files buffer locations = session.query tree buffer locations := by
  rw [query_eq, queryAlong]
  rw [fetched, accepts] at ha
  cases hf : buffer.file with
  | none => rfl
  | some path =>
    simp only
    by_cases hs : session.configuration.isSource path = true
    · rw [if_pos (by simp [hf, hs])] at ha
      rw [if_pos hs, if_pos hs, suggestions_eq, suggestionsAlong,
        ModuleCache.suggestAllAlong_eq (h.behind _) locations ha]
    · rw [if_neg hs, if_neg hs]

theorem fetched_eq_modulesRead (hc : session.cache.Faithful [tree]) :
    session.fetched tree (.query buffer locations) =
      Uncached.modulesRead session.configuration tree buffer locations := by
  rw [fetched, accepts, aliases, Uncached.modulesRead]
  cases buffer.file with
  | none => rfl
  | some path =>
    rw [ModuleCache.fetched_eq_modules (fun _ _ => Imports.isNormal_of_get?) locations hc]
    rfl

end Session

end EsmCompletion
