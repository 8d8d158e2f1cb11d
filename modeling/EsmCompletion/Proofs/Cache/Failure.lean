import EsmCompletion.Proofs.Cache.Run

/-! # Failed fetches leave no trace

A fetch that fails, or that finds no file, keeps every record, and counts only if it is the text of
the module that is not understood. So failures do not stick: as long as no fetch of the path
succeeds, a text that is there under the time of a failure is parsed. An older record of the path
may be kept all the while, and other paths may be fetched; what carries a run is that no record of
the path gets the time of the failure. -/

namespace EsmCompletion.ModuleCache

/-- Fetching a module finds the file and gives its exports. -/
def Moment.Succeeds (moment : Moment) (path : Path) : Prop :=
  moment.files.tree.find path ≠ .error .notFound ∧
    ∃ exports, (moment.fetch path).answer = .ok exports

/-- What a fetch without success does to the cache: the records stay, and a text that is not
understood counts as an attempt. -/
theorem kept_of_not_succeeds {moment : Moment} {path : Path} (h : ¬ moment.Succeeds path) :
    (moment.fetch path).cache.records = moment.cache.records ∧
      ((∃ error, (moment.fetch path).answer = .error (.source error)) ∧
          (moment.fetch path).cache.parses = moment.cache.parses + 1 ∨
        (∀ error, (moment.fetch path).answer ≠ .error (.source error)) ∧
          (moment.fetch path).cache.parses = moment.cache.parses) := by
  have hfetch := moment.fetch_spec path
  unfold Moment.Succeeds at h
  generalize moment.fetch path = outcome at h hfetch
  cases hfetch with
  | missing | undated | unreadable => exact ⟨rfl, .inr ⟨nofun, rfl⟩⟩
  | malformed => exact ⟨rfl, .inl ⟨⟨_, rfl⟩, rfl⟩⟩
  | hit hf => exact absurd ⟨by rw [hf]; nofun, _, rfl⟩ h
  | parsed ht =>
    obtain ⟨_, hf, -⟩ := ht
    exact absurd ⟨by rw [hf]; nofun, _, rfl⟩ h

/-! ## Stale records stay stale -/

theorem Stale.of_records {cache other : ModuleCache} {path : Path} {modified : Timestamp}
    (h : cache.Stale path modified) (hr : other.records = cache.records) :
    other.Stale path modified := by
  intro record hg
  exact h record (by rwa [get?, ← hr])

theorem Stale.respell {cache : ModuleCache} {path other : Path} {modified : Timestamp}
    (h : cache.Stale path modified) (hc : other.components = path.components) :
    cache.Stale other modified := by
  intro record hg
  exact h record (by rwa [get?, ← hc])

/-- A fetch that fails although its file is there fails because no record has the file's time. -/
theorem stale_of_error {moment : Moment} {path : Path} {entry : Entry} {fault : ModuleFault}
    (hf : moment.files.tree.find path = .ok entry)
    (ha : (moment.fetch path).answer = .error fault) : moment.cache.Stale path entry.modified := by
  have hfetch := moment.fetch_spec path
  generalize moment.fetch path = outcome at ha hfetch
  cases hfetch with
  | missing hn | undated hn => rw [hf] at hn; cases hn
  | hit | parsed => cases ha
  | unreadable hn hs => rw [hf] at hn; cases hn; exact hs
  | malformed ht hs =>
    obtain ⟨_, hn, -⟩ := ht
    rw [hf] at hn
    cases hn
    exact hs

/-- Fetches of other paths, and fetches of the path without success, leave its record stale. -/
theorem Stale.next {moment : Moment} {path : Path} {modified : Timestamp}
    (h : moment.cache.Stale path modified) {happening : Happening}
    (hn : ∀ called, happening = .fetch called → called.components = path.components →
      ¬ moment.Succeeds called) :
    (moment.next happening).cache.Stale path modified := by
  cases happening with
  | change files => exact h
  | fetch called =>
    by_cases hc : called.components = path.components
    · exact h.of_records (kept_of_not_succeeds (hn called rfl hc)).1
    · have hfetch := moment.fetch_spec called
      change ((moment.fetch called).cache).Stale path modified
      generalize moment.fetch called = outcome at hfetch
      cases hfetch with
      | missing | undated | hit | unreadable | malformed => exact h
      | parsed =>
        intro record hg
        rw [get?_store, if_neg hc] at hg
        exact h record hg

/-- No fetch of a path succeeds in a run, however the path is spelled. -/
def NoSuccess (first : Moment) (run : List Happening) (path : Path) : Prop :=
  ∀ before called later, run = before ++ .fetch called :: later →
    called.components = path.components → ¬ (first.after before).Succeeds called

theorem noSuccess_cons {first : Moment} {happening : Happening} {rest : List Happening}
    {path : Path} :
    NoSuccess first (happening :: rest) path ↔
      (∀ called, happening = .fetch called → called.components = path.components →
        ¬ first.Succeeds called) ∧ NoSuccess (first.next happening) rest path := by
  constructor
  · intro h
    refine ⟨fun called he => h [] called rest (by rw [he]; rfl), fun before called later hr => ?_⟩
    exact h (happening :: before) called later (by rw [hr]; rfl)
  · rintro ⟨hhead, hrest⟩ before called later hr
    cases before with
    | nil => cases hr; exact hhead called rfl
    | cons first before => cases hr; exact hrest before called later rfl

theorem Stale.after {moment : Moment} {path : Path} {modified : Timestamp} {run : List Happening}
    (h : moment.cache.Stale path modified) (hn : NoSuccess moment run path) :
    (moment.after run).cache.Stale path modified := by
  induction run generalizing moment with
  | nil => exact h
  | cons happening rest ih =>
    obtain ⟨hhead, hrest⟩ := noSuccess_cons.1 hn
    exact ih (h.next hhead) hrest

/-- A text that no record is as old as is parsed anew. -/
theorem answer_of_stale {moment : Moment} {path : Path} {modified : Timestamp} {text : String}
    (h : moment.cache.Stale path modified) (ht : moment.files.tree.HasText path modified text) :
    (moment.fetch path).answer = (exportsOf text path.shownName).mapError .source := by
  obtain ⟨bytes, hf, hb⟩ := ht
  have hr := FileTree.HasText.readText ⟨bytes, hf, hb⟩
  have hfetch := moment.fetch_spec path
  generalize moment.fetch path = outcome at hfetch
  cases hfetch with
  | missing hn | undated hn => rw [hf] at hn; cases hn
  | hit hn hg hm => rw [hf] at hn; cases hn; exact absurd hm (h _ hg)
  | unreadable hn _ hu => rw [hr] at hu; cases hu
  | malformed hx _ he | parsed hx _ he =>
    rw [hx.readText] at hr
    cases hr
    rw [he]
    rfl

/-- Failures are neither destructive nor sticky, in whatever run. A fetch without success keeps all
records, and is counted if and only if it is the text that is not understood. And where a fetch
failed although the file was there, a text that the file has later under the same time is parsed,
unless the path was fetched with success in between. -/
theorem failures_leave_no_trace (files : Files) (run : List Happening) :
    let moment := (Moment.start files).after run
    (∀ path, ¬ moment.Succeeds path →
      (moment.fetch path).cache.records = moment.cache.records ∧
        ((∃ error, (moment.fetch path).answer = .error (.source error)) ∧
            (moment.fetch path).cache.parses = moment.cache.parses + 1 ∨
          (∀ error, (moment.fetch path).answer ≠ .error (.source error)) ∧
            (moment.fetch path).cache.parses = moment.cache.parses)) ∧
    ∀ path entry fault, moment.files.tree.find path = .ok entry →
      (moment.fetch path).answer = .error fault →
      ∀ later, NoSuccess (moment.next (.fetch path)) later path →
        let again := (moment.next (.fetch path)).after later
        ∀ spelling text, spelling.components = path.components →
          again.files.tree.HasText spelling entry.modified text →
          (again.fetch spelling).answer =
            (exportsOf text spelling.shownName).mapError .source := by
  intro moment
  refine ⟨fun path => kept_of_not_succeeds, ?_⟩
  intro path entry fault hf ha later hn again spelling text hc ht
  have hfail : ¬ moment.Succeeds path := by
    rintro ⟨-, exports, hs⟩
    rw [ha] at hs
    cases hs
  have hstale : (moment.next (.fetch path)).cache.Stale path entry.modified :=
    (stale_of_error hf ha).next fun called he _ => by cases he; exact hfail
  exact answer_of_stale ((hstale.after hn).respell hc) ht

/-- A module is written anew after a failure, under the time of the failure, while the record of its
first text is kept. -/
theorem parsed_after_failure :
    let moment := (Moment.start (.oneModule "export let a = 1;" ⟨5, 0⟩)).after
      [.fetch ⟨"/m/a.js"⟩, .change (.oneModule "export let = 1;" ⟨6, 0⟩)]
    let again := (moment.next (.fetch ⟨"/m/a.js"⟩)).after
      [.change .empty, .fetch ⟨"/m/a.js"⟩, .change (.oneModule "export let b = 2;" ⟨6, 0⟩)]
    (moment.fetch ⟨"/m/a.js"⟩).answer =
        .error (.source (.malformed "a.js" (Script.Program.diagnostics "export let = 1;"))) ∧
      (moment.fetch ⟨"/m/a.js"⟩).cache.records = moment.cache.records ∧
      (again.fetch ⟨"/m//a.js"⟩).answer = .ok ⟨[("b", ⟨"b\ta.js", "b"⟩)]⟩ := by
  intro moment again
  obtain ⟨hkept, hagain⟩ := failures_leave_no_trace (.oneModule "export let a = 1;" ⟨5, 0⟩)
    [.fetch ⟨"/m/a.js"⟩, .change (.oneModule "export let = 1;" ⟨6, 0⟩)]
  have hfails : (moment.fetch ⟨"/m/a.js"⟩).answer =
      .error (.source (.malformed "a.js" (Script.Program.diagnostics "export let = 1;"))) := rfl
  have hnone : NoSuccess (moment.next (.fetch ⟨"/m/a.js"⟩))
      [.change .empty, .fetch ⟨"/m/a.js"⟩, .change (.oneModule "export let b = 2;" ⟨6, 0⟩)]
      ⟨"/m/a.js"⟩ := by
    refine noSuccess_cons.2 ⟨nofun, noSuccess_cons.2 ⟨?_, noSuccess_cons.2 ⟨nofun, ?_⟩⟩⟩
    · rintro called he - ⟨hfound, -⟩
      cases he
      exact hfound rfl
    · intro before called later he
      simp at he
  refine ⟨hfails, (hkept ⟨"/m/a.js"⟩ ?_).1, ?_⟩
  · rintro ⟨-, exports, hs⟩
    cases hfails.symm.trans hs
  · exact hagain ⟨"/m/a.js"⟩ _ _ rfl hfails _ hnone ⟨"/m//a.js"⟩ "export let b = 2;" rfl
      ⟨_, rfl, fromUTF8?_toUTF8 _⟩

end EsmCompletion.ModuleCache
