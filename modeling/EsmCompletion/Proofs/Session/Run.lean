import EsmCompletion.FileTree.Change
import EsmCompletion.Proofs.Session.Faithful

/-! # The cache of a session does not show

A run of one session is any sequence of requests and of changes to the files; each change may
leave any tree behind. If the contents of a path are the same whenever its time is the same, every
request of the run has the answer that a new session would give at that moment, which is the
answer without a cache. -/

namespace EsmCompletion.Session

/-! ## Requests and answers -/

/-- What a session can be asked: for suggestions, with faults returned, or as an editor does. -/
inductive Request where
  | suggestions (buffer : Buffer) (locations : List Nat)
  | query (buffer : Buffer) (locations : List Nat)

inductive Reply where
  | suggestions (answer : Except ModuleFault (List Suggestion))
  | query (answer : Option (List Suggestion))

def reply (session : Session) (tree : FileTree) : Request → Outcome Reply
  | .suggestions buffer locations =>
    (session.suggestions tree buffer locations).map .suggestions
  | .query buffer locations => (session.query tree buffer locations).map .query

def uncachedReply (configuration : Configuration) (tree : FileTree) : Request → Reply
  | .suggestions buffer locations =>
    .suggestions (Uncached.suggestions configuration tree buffer locations)
  | .query buffer locations => .query (Uncached.query configuration tree buffer locations)

theorem reply_of_faithful {session : Session} {trees : List FileTree} {tree : FileTree}
    (h : session.cache.Faithful trees) (hs : FileTree.TimesTell trees) (ht : tree ∈ trees)
    (request : Request) :
    (session.reply tree request).answer = uncachedReply session.configuration tree request ∧
      (session.reply tree request).cache.Faithful trees := by
  cases request with
  | suggestions buffer locations =>
    obtain ⟨hanswer, hcache⟩ := suggestions_of_faithful h hs ht buffer locations
    exact ⟨congrArg Reply.suggestions hanswer, hcache⟩
  | query buffer locations =>
    obtain ⟨hanswer, hcache⟩ := query_of_faithful h hs ht buffer locations
    exact ⟨congrArg Reply.query hanswer, hcache⟩

/-- A new session answers as if there were no cache, whatever times the files have. -/
theorem reply_new (configuration : Configuration) (tree : FileTree) (request : Request) :
    ((new configuration).reply tree request).answer =
      uncachedReply configuration tree request := by
  have hempty := faithful_new configuration [tree]
  exact (reply_of_faithful hempty tree.timesTell_singleton (List.mem_singleton.2 rfl) request).1

/-! ## Runs -/

/-- One thing that happens while a session lives. -/
inductive Happening where
  | change (tree : FileTree)
  | request (request : Request)

def Happening.tree? : Happening → Option FileTree
  | .change tree => some tree
  | .request _ => none

/-- The trees of a run: the first one and all that changes leave. -/
def trees (first : FileTree) (run : List Happening) : List FileTree :=
  first :: run.filterMap Happening.tree?

structure Moment where
  tree : FileTree
  session : Session

namespace Moment

def answer (moment : Moment) (request : Request) : Reply :=
  (moment.session.reply moment.tree request).answer

def next (moment : Moment) : Happening → Moment
  | .change tree => { moment with tree }
  | .request request =>
    { moment with session := moment.session.after (moment.session.reply moment.tree request) }

def after (moment : Moment) (run : List Happening) : Moment := run.foldl next moment

/-- What holds at every moment of a run with the given trees. -/
structure Sound (configuration : Configuration) (trees : List FileTree) (moment : Moment) :
    Prop where
  configured : moment.session.configuration = configuration
  known : moment.tree ∈ trees
  faithful : moment.session.cache.Faithful trees

variable {configuration : Configuration} {trees : List FileTree} {moment : Moment}

theorem Sound.answer_eq (h : moment.Sound configuration trees) (hs : FileTree.TimesTell trees)
    (request : Request) :
    moment.answer request = uncachedReply configuration moment.tree request := by
  rw [← h.configured]
  exact (reply_of_faithful h.faithful hs h.known request).1

theorem Sound.next (h : moment.Sound configuration trees) (hs : FileTree.TimesTell trees)
    {happening : Happening} (ht : ∀ tree, happening.tree? = some tree → tree ∈ trees) :
    (moment.next happening).Sound configuration trees := by
  cases happening with
  | change tree => exact ⟨h.configured, ht tree rfl, h.faithful⟩
  | request request =>
    have hcache := (reply_of_faithful h.faithful hs h.known request).2
    exact ⟨h.configured, h.known, hcache⟩

/-- What everything that happens preserves, the whole run preserves. The changes of the run lead to
some given trees only. -/
theorem after_of_next {holds : Moment → Prop}
    (hnext : ∀ moment happening, holds moment →
      (∀ tree, happening.tree? = some tree → tree ∈ trees) → holds (moment.next happening))
    {run : List Happening} (ht : ∀ tree ∈ run.filterMap Happening.tree?, tree ∈ trees)
    (h : holds moment) : holds (moment.after run) := by
  induction run generalizing moment with
  | nil => exact h
  | cons happening rest ih =>
    have hhead : ∀ tree, happening.tree? = some tree → tree ∈ trees := fun tree hh =>
      ht tree (List.mem_filterMap.2 ⟨happening, List.mem_cons_self .., hh⟩)
    refine ih (fun tree hm => ht tree ?_) (hnext moment happening h hhead)
    obtain ⟨other, ho, he⟩ := List.mem_filterMap.1 hm
    exact List.mem_filterMap.2 ⟨other, List.mem_cons_of_mem _ ho, he⟩

theorem Sound.after {run : List Happening} (h : moment.Sound configuration trees)
    (hs : FileTree.TimesTell trees) (ht : ∀ tree ∈ run.filterMap Happening.tree?, tree ∈ trees) :
    (moment.after run).Sound configuration trees :=
  after_of_next (fun _ _ hm htree => hm.next hs htree) ht h

end Moment

/-- Every request of a run, whatever was asked before it and however the files changed, is
answered as a new session answers it at that moment, and so as if every module were read anew. -/
theorem replies_as_new (configuration : Configuration) (first : FileTree) (run : List Happening)
    (hs : FileTree.TimesTell (trees first run)) :
    ∀ before request later, run = before ++ .request request :: later →
      let moment := Moment.after ⟨first, new configuration⟩ before
      moment.answer request = Moment.answer ⟨moment.tree, new configuration⟩ request ∧
        moment.answer request = uncachedReply configuration moment.tree request := by
  intro before request later hrun moment
  have hstart : Moment.Sound configuration (trees first run) ⟨first, new configuration⟩ :=
    ⟨rfl, List.mem_cons_self .., ModuleCache.faithful_empty _⟩
  have hsound : moment.Sound configuration (trees first run) := by
    refine hstart.after hs fun tree hm => List.mem_cons_of_mem _ ?_
    rw [hrun, List.filterMap_append]
    exact List.mem_append_left _ hm
  have hanswer := hsound.answer_eq hs request
  exact ⟨hanswer.trans (reply_new configuration moment.tree request).symm, hanswer⟩

/-- The cursor stands behind the alias of a module. -/
def memberRequest : Request :=
  .query ⟨"import * as A from './a.js'\nA.", some ⟨"/m/main.js"⟩⟩ [30]

/-- What is written at which time: one text at five, another at six. -/
def writtenAt (modified : Timestamp) : Content :=
  if modified = ⟨5, 0⟩ then .file "export let a = 1;".toUTF8
  else if modified = ⟨6, 0⟩ then .file "export let b = 2;".toUTF8
  else .directory

theorem content_oneModule {text : String} {modified : Timestamp}
    (ht : writtenAt modified = .file text.toUTF8) (location : Location) (entry : Entry)
    (h : (FileTree.oneModule text modified).entryAt? location = some entry) :
    entry.content = writtenAt entry.modified := by
  rw [FileTree.oneModule, FileTree.entryAt?_set _ _ (List.cons_ne_nil _ _),
    FileTree.entryAt?_set _ _ (List.cons_ne_nil _ _)] at h
  split at h
  · cases h
    exact ht.symm
  · split at h
    · cases h
      rfl
    · cases location with
      | nil => cases h; rfl
      | cons name directory => cases h

/-- A module that is written anew between two requests is read anew. -/
theorem reply_after_rewriting :
    FileTree.TimesTell [FileTree.oneModule "export let a = 1;" ⟨5, 0⟩,
        FileTree.oneModule "export let b = 2;" ⟨6, 0⟩] ∧
      (Moment.after ⟨FileTree.oneModule "export let a = 1;" ⟨5, 0⟩, new {}⟩
        [.request memberRequest, .change (FileTree.oneModule "export let b = 2;" ⟨6, 0⟩)]).answer
          memberRequest = .query (some [⟨"b\ta.js", "b"⟩]) := by
  have htimes : FileTree.TimesTell [FileTree.oneModule "export let a = 1;" ⟨5, 0⟩,
      FileTree.oneModule "export let b = 2;" ⟨6, 0⟩] := by
    refine FileTree.timesTell_of_content writtenAt fun tree ht => ?_
    rcases List.mem_cons.1 ht with rfl | ht
    · exact content_oneModule rfl
    · cases List.mem_singleton.1 ht
      exact content_oneModule rfl
  refine ⟨htimes, ?_⟩
  have hreplies := replies_as_new {} (FileTree.oneModule "export let a = 1;" ⟨5, 0⟩)
    [.request memberRequest, .change (FileTree.oneModule "export let b = 2;" ⟨6, 0⟩),
      .request memberRequest] htimes
  exact (hreplies [_, _] memberRequest [] rfl).2

end EsmCompletion.Session
