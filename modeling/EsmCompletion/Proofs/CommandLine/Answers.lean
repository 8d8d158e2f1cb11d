import EsmCompletion.Proofs.Json.Line
import EsmCompletion.Proofs.Session.Frame

/-! # The answers to lines

What a server answers to lines of text, on files that stay as they are: each line is looked at on
its own, and only the session is handed from one to the next. The server itself writes to its log
while it answers; as long as no request reads the log, its answers are these. -/

namespace EsmCompletion.CommandLine

/-! ## Answers on files that stay -/

def requestOutcome (tree : FileTree) (session : Session) (request : CompletionRequest) :
    Outcome (Option (List Suggestion)) :=
  request.outcome session (.still tree)

theorem buffer_of_absolutePath {tree : FileTree} {request : CompletionRequest} {path : Path}
    (h : tree.absolutePath request.file = .ok path) :
    request.buffer tree = .ok ⟨request.text, some path⟩ := by
  rw [CompletionRequest.buffer, h]
  rfl

/-- A request whose buffer is known is a request of the editor. -/
theorem requestOutcome_of_buffer {tree : FileTree} {request : CompletionRequest} {buffer : Buffer}
    (h : request.buffer tree = .ok buffer) (session : Session) :
    requestOutcome tree session request = session.query tree buffer request.locations := by
  simp only [requestOutcome, CompletionRequest.outcome, FileCourse.still, h]
  rfl

/-- A request whose buffer is not known has no answer and leaves the session alone. -/
theorem requestOutcome_of_fault {tree : FileTree} {request : CompletionRequest} {fault : FileFault}
    (h : request.buffer tree = .error fault) (session : Session) :
    requestOutcome tree session request =
      ⟨session.cache, none, [.unresolvedBuffer request.file fault]⟩ := by
  simp only [requestOutcome, CompletionRequest.outcome, FileCourse.still, h]

/-- The answers to a line: none to a blank one, and one to any other. -/
def lineAnswers (tree : FileTree) (session : Session) (line : String) : List String :=
  if isBlank line then []
  else
    match CompletionRequest.parse? line with
    | none => ["null"]
    | some request => [writeAnswer (requestOutcome tree session request).answer]

/-- The session after a line. Only a request can change it. -/
def sessionAfterLine (tree : FileTree) (session : Session) (line : String) : Session :=
  match CompletionRequest.parse? line with
  | none => session
  | some request => session.after (requestOutcome tree session request)

def sessionAfter (tree : FileTree) (session : Session) (lines : List String) : Session :=
  lines.foldl (sessionAfterLine tree) session

def answers (tree : FileTree) : Session → List String → List String
  | _, [] => []
  | session, line :: rest =>
    lineAnswers tree session line ++ answers tree (sessionAfterLine tree session line) rest

variable {tree : FileTree} {session : Session} {line : String}

theorem answers_append (session : Session) (first second : List String) :
    answers tree session (first ++ second) =
      answers tree session first ++ answers tree (sessionAfter tree session first) second := by
  induction first generalizing session with
  | nil => rfl
  | cons line rest ih =>
    have hrest := ih (sessionAfterLine tree session line)
    rw [List.cons_append, answers, answers, hrest, List.append_assoc]
    rfl

theorem length_lineAnswers :
    (lineAnswers tree session line).length = if isBlank line then 0 else 1 := by
  unfold lineAnswers
  split
  · rfl
  · split <;> rfl

/-- There is one answer to every line that is not blank. -/
theorem length_answers (session : Session) (lines : List String) :
    (answers tree session lines).length = (lines.filter fun line => !isBlank line).length := by
  induction lines generalizing session with
  | nil => rfl
  | cons line rest ih =>
    rw [answers, List.length_append, ih, length_lineAnswers, List.filter_cons]
    cases isBlank line
    · simp only [Bool.not_false, if_true, List.length_cons]
      exact Nat.add_comm ..
    · simp

theorem lineFeed_not_mem_writeAnswer (answer : Option (List Suggestion)) :
    '\n' ∉ (writeAnswer answer).toList := by
  cases answer with
  | none => decide
  | some suggestions => exact ListFormat.lineFeed_not_mem_writeJson suggestions

/-- No answer runs over its line. -/
theorem lineFeed_not_mem_answers (session : Session) (lines : List String) :
    ∀ answer ∈ answers tree session lines, '\n' ∉ answer.toList := by
  induction lines generalizing session with
  | nil => simp [answers]
  | cons line rest ih =>
    intro answer hm
    rcases List.mem_append.1 hm with hm | hm
    · unfold lineAnswers at hm
      split at hm
      · cases hm
      · split at hm
        · rw [List.mem_singleton.1 hm]
          decide
        · rw [List.mem_singleton.1 hm]
          exact lineFeed_not_mem_writeAnswer _
    · exact ih _ answer hm

/-- A line that is no request: it is blank or malformed. -/
def IsIdle (line : String) : Prop :=
  isBlank line = true ∨ CompletionRequest.parse? line = none

theorem IsIdle.parse?_eq (h : IsIdle line) : CompletionRequest.parse? line = none :=
  h.elim CompletionRequest.parse?_of_isBlank id

theorem IsIdle.sessionAfterLine_eq (h : IsIdle line) (tree : FileTree) (session : Session) :
    sessionAfterLine tree session line = session := by
  rw [sessionAfterLine, h.parse?_eq]

theorem IsIdle.lineAnswers_eq (h : IsIdle line) (tree : FileTree) (session : Session) :
    lineAnswers tree session line = if isBlank line then [] else ["null"] := by
  rw [lineAnswers, h.parse?_eq]

/-! ## Sessions stay faithful -/

theorem configuration_sessionAfterLine :
    (sessionAfterLine tree session line).configuration = session.configuration := by
  unfold sessionAfterLine
  split
  · rfl
  · rw [Session.configuration_after]

/-- With a faithful cache, a request has the answer of a new session and leaves a faithful cache. -/
theorem requestOutcome_of_faithful (h : session.cache.Faithful [tree])
    (request : CompletionRequest) :
    (requestOutcome tree session request).answer =
        (requestOutcome tree (.new session.configuration) request).answer ∧
      (requestOutcome tree session request).cache.Faithful [tree] := by
  cases hb : request.buffer tree with
  | error fault =>
    rw [requestOutcome_of_fault hb, requestOutcome_of_fault hb]
    exact ⟨rfl, h⟩
  | ok buffer =>
    have hempty := Session.faithful_new session.configuration [tree]
    have hknown := List.mem_singleton.2 (Eq.refl tree)
    have htimes := tree.timesTell_singleton
    obtain ⟨hanswer, hcache⟩ :=
      Session.query_of_faithful h htimes hknown buffer request.locations
    obtain ⟨hnew, -⟩ := Session.query_of_faithful hempty htimes hknown buffer request.locations
    rw [requestOutcome_of_buffer hb, requestOutcome_of_buffer hb]
    exact ⟨hanswer.trans hnew.symm, hcache⟩

theorem faithful_sessionAfterLine (h : session.cache.Faithful [tree]) :
    (sessionAfterLine tree session line).cache.Faithful [tree] := by
  unfold sessionAfterLine
  split
  · exact h
  · exact (requestOutcome_of_faithful h _).2

/-- What was asked before leaves the configuration and a faithful cache. -/
theorem sessionAfter_spec (lines : List String) (h : session.cache.Faithful [tree]) :
    (sessionAfter tree session lines).configuration = session.configuration ∧
      (sessionAfter tree session lines).cache.Faithful [tree] := by
  induction lines generalizing session with
  | nil => exact ⟨rfl, h⟩
  | cons line rest ih =>
    obtain ⟨hconfiguration, hcache⟩ := ih (faithful_sessionAfterLine h)
    exact ⟨hconfiguration.trans configuration_sessionAfterLine, hcache⟩

/-! ## The server -/

/-- The lines of text before the first that is none. -/
def takenTexts : List (List UInt8) → List String
  | [] => []
  | line :: rest =>
    match decodeLine? line with
    | none => []
    | some text => text :: takenTexts rest

def isText (line : List UInt8) : Bool := (decodeLine? line).isSome

/-- Lines that are each ended by a line feed. -/
def terminated (lines : List String) : String := String.join (lines.map (· ++ "\n"))

theorem terminated_append (first second : List String) :
    terminated (first ++ second) = terminated first ++ terminated second := by
  simp [terminated]

/-- No request on lines of text reads a file. -/
def ReadsApart (file : Option Location) (configuration : Configuration) (tree : FileTree)
    (lines : List String) : Prop :=
  ∀ line ∈ lines, ∀ request, CompletionRequest.parse? line = some request →
    ∀ buffer, request.buffer tree = .ok buffer →
      ∀ path ∈ Uncached.modulesRead configuration tree buffer request.locations,
        tree.Avoids file path

variable {file : Option Location} {other : FileTree} {files : FileCourse}

/-- A request is answered as on the files of the beginning. -/
theorem outcome_eq (h : files.KeepsBesides file tree) (hc : session.cache.Faithful [tree])
    {request : CompletionRequest} (ha : ∀ buffer, request.buffer tree = .ok buffer →
      ∀ path ∈ Uncached.modulesRead session.configuration tree buffer request.locations,
        tree.Avoids file path) :
    request.outcome session files = requestOutcome tree session request := by
  have hbuffer : request.buffer (files []) = request.buffer tree := by
    rw [CompletionRequest.buffer, CompletionRequest.buffer,
      FileTree.absolutePath_congr (h []).workingDirectory]
  rw [CompletionRequest.outcome, hbuffer]
  cases hb : request.buffer tree with
  | error fault => rw [requestOutcome_of_fault hb]
  | ok buffer =>
    rw [requestOutcome_of_buffer hb]
    refine Session.queryAlong_eq h ?_
    rw [Session.fetched_eq_modulesRead hc]
    exact ha buffer hb

/-- One line is answered as on the files of the beginning. -/
theorem respond_eq (h : files.KeepsBesides file tree) (hc : session.cache.Faithful [tree])
    (ha : ReadsApart file session.configuration tree [line]) :
    (respond session files line).answer.toList = lineAnswers tree session line ∧
      session.after (respond session files line) = sessionAfterLine tree session line := by
  unfold respond lineAnswers sessionAfterLine
  by_cases hb : isBlank line = true
  · rw [if_pos hb, if_pos hb, CompletionRequest.parse?_of_isBlank hb]
    exact ⟨rfl, rfl⟩
  · rw [if_neg hb, if_neg hb]
    cases hr : CompletionRequest.parse? line with
    | none => exact ⟨rfl, rfl⟩
    | some request =>
      simp only [outcome_eq h hc (ha line (List.mem_singleton.2 rfl) request hr)]
      exact ⟨rfl, rfl⟩

theorem serveLines_eq (journal : Log.Journal) (lines : List (List UInt8))
    (h : FileTree.SameBesides journal.file tree other) (hc : session.cache.Faithful [tree])
    (ha : ReadsApart journal.file session.configuration tree (takenTexts lines)) :
    (serveLines journal lines session other).output =
        terminated (answers tree session (takenTexts lines)) ∧
      (serveLines journal lines session other).complete = lines.all isText := by
  -- the log grows from line to line; the files that are read stay
  induction lines generalizing session other with
  | nil => exact ⟨rfl, rfl⟩
  | cons line rest ih =>
    unfold takenTexts at ha ⊢
    rw [serveLines, List.all_cons, isText]
    cases hd : decodeLine? line with
    | none => exact ⟨rfl, rfl⟩
    | some text =>
      simp only [hd] at ha ⊢
      have hline : ReadsApart journal.file session.configuration tree [text] := fun other ho =>
        ha other (List.mem_cons.2 (.inl (List.mem_singleton.1 ho)))
      obtain ⟨hanswer, hsession⟩ := respond_eq (Log.Journal.keepsBesides h) hc hline
      have hgrown := Log.Journal.keepsBesides h
        (respond session (journal.writeAll other) text).events
      have hrest : ReadsApart journal.file (sessionAfterLine tree session text).configuration tree
          (takenTexts rest) := by
        rw [configuration_sessionAfterLine]
        exact fun other ho => ha other (List.mem_cons_of_mem _ ho)
      obtain ⟨houtput, hcomplete⟩ := ih hgrown (faithful_sessionAfterLine hc) hrest
      rw [hsession]
      refine ⟨?_, by simpa using hcomplete⟩
      rw [answers, terminated_append, ← hanswer, houtput]
      cases (respond session (journal.writeAll other) text).answer <;> simp [terminated]

end EsmCompletion.CommandLine
