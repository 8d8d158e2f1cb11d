import EsmCompletion.CommandLine.Run
import EsmCompletion.Proofs.CommandLine.Answers

/-! # The line protocol of the server

The input is taken line by line up to the first line that is no text. Each taken line that is not
blank has one line of output, in order; a line that is no request has its answer and leaves the
session alone, so that it can be taken out of the input without a trace in the other answers. -/

namespace EsmCompletion.CommandLine

/-! ## Lines of an input -/

/-- The lines that a server takes from an input. -/
def takenLines (input : ByteArray) : List String := takenTexts (inputLines input)

def isAllText (input : ByteArray) : Bool := (inputLines input).all isText

theorem takenTexts_append {before : List (List UInt8)} (hb : before.all isText = true)
    (after : List (List UInt8)) :
    takenTexts (before ++ after) = takenTexts before ++ takenTexts after := by
  induction before with
  | nil => rfl
  | cons line rest ih =>
    obtain ⟨hline, hrest⟩ : isText line = true ∧ rest.all isText = true := by simpa using hb
    obtain ⟨text, ht⟩ := Option.isSome_iff_exists.1 hline
    simp [takenTexts, ht, ih hrest]

theorem inputLines_of_ended (first second : List UInt8) :
    inputLines ⟨(first ++ 10 :: second).toArray⟩ =
      (first.splitOn 10).map dropReturn ++ inputLines ⟨second.toArray⟩ := by
  obtain ⟨piece, pieces, hp⟩ := List.exists_cons_of_ne_nil (List.splitOn_ne_nil 10 second)
  simp [inputLines, List.splitOn_append_cons_self, hp, List.getLast?_append, List.getLast?_cons]

/-- What stands before the end of a line is split into lines on its own. -/
theorem inputLines_append {first : List UInt8} (h : first = [] ∨ first.getLast? = some 10)
    (second : List UInt8) :
    inputLines ⟨(first ++ second).toArray⟩ =
      inputLines ⟨first.toArray⟩ ++ inputLines ⟨second.toArray⟩ := by
  rcases h with rfl | h
  · rfl
  · obtain ⟨before, rfl⟩ := List.getLast?_eq_some_iff.1 h
    have hempty : inputLines ⟨([] : List UInt8).toArray⟩ = [] := rfl
    rw [List.append_assoc, List.singleton_append, inputLines_of_ended,
      inputLines_of_ended before [], hempty, List.append_nil]

theorem inputLines_line {first line : List UInt8} (h : first = [] ∨ first.getLast? = some 10)
    (hl : 10 ∉ line) (second : List UInt8) :
    inputLines ⟨(first ++ line ++ 10 :: second).toArray⟩ =
      inputLines ⟨first.toArray⟩ ++ dropReturn line :: inputLines ⟨second.toArray⟩ := by
  rw [List.append_assoc, inputLines_append h, inputLines_of_ended, List.splitOn_eq_singleton hl]
  rfl

/-! ## Runs of the program -/

/-- The files once the log is open. -/
def openedTree (environment : Environment) (configuration : Configuration) : FileTree :=
  (openLog environment configuration).1

def openedJournal (environment : Environment) (configuration : Configuration) : Log.Journal :=
  (openLog environment configuration).2.1

/-- The files in the course of the first request, with the log as it grows. -/
def openedCourse (environment : Environment) (configuration : Configuration) : FileCourse :=
  (openedJournal environment configuration).writeAll (openedTree environment configuration)

/-- The configuration that a run loads, from the given root or else from the working directory. -/
def Loads (environment : Environment) (root : Option Path) (configuration : Configuration) : Prop :=
  Configuration.load environment.tree (rootDirectory environment.tree root) = .ok configuration

variable {environment : Environment} {arguments : List String} {invocation : Invocation}
  {configuration : Configuration}

theorem run_eq_invoke (hparse : parse? arguments = some (.run invocation)) :
    run environment arguments = invoke environment invocation := by
  unfold run
  rw [hparse]

/-- What a run prints and its exit code are those of its command, once the log is open. -/
theorem run_invocation (hparse : parse? arguments = some (.run invocation))
    (hload : Loads environment invocation.root configuration) :
    (run environment arguments).output =
        (execute environment configuration (openedJournal environment configuration)
          (openedTree environment configuration) invocation.command).output ∧
      (run environment arguments).code =
        (execute environment configuration (openedJournal environment configuration)
          (openedTree environment configuration) invocation.command).code := by
  unfold Loads at hload
  rw [run_eq_invoke hparse]
  unfold invoke
  rw [hload]
  exact ⟨rfl, rfl⟩

/-- The answers that are due for lines. -/
def dueAnswers (environment : Environment) (configuration : Configuration) (lines : List String) :
    List String :=
  answers (openedTree environment configuration) (.new configuration) lines

def dueSession (environment : Environment) (configuration : Configuration) (lines : List String) :
    Session :=
  sessionAfter (openedTree environment configuration) (.new configuration) lines

/-- The log file is none of the modules that the requests on the input read. -/
def LogApart (environment : Environment) (configuration : Configuration) : Prop :=
  ReadsApart (openedJournal environment configuration).file configuration
    (openedTree environment configuration) (takenLines environment.input)

theorem LogApart.of_subset (ha : LogApart environment configuration) {input : ByteArray}
    (h : takenLines input ⊆ takenLines environment.input) :
    LogApart { environment with input } configuration :=
  fun line hl => ha line (h hl)

theorem serve_eq (ha : LogApart environment configuration) :
    (serve environment configuration (openedJournal environment configuration)
          (openedTree environment configuration)).output =
        terminated (dueAnswers environment configuration (takenLines environment.input)) ∧
      (serve environment configuration (openedJournal environment configuration)
          (openedTree environment configuration)).code =
        if isAllText environment.input then 0 else 1 := by
  have hempty := Session.faithful_new configuration [openedTree environment configuration]
  have hopened := (openedJournal environment configuration).write_sameBesides
    (openedTree environment configuration) .serving
  obtain ⟨houtput, hcomplete⟩ := serveLines_eq _ (inputLines environment.input) hopened hempty ha
  rw [dueAnswers, takenLines, isAllText, ← houtput, ← hcomplete, serve]
  generalize serveLines _ _ _ _ = served
  cases served.complete <;> exact ⟨rfl, rfl⟩

/-- A server writes the answers that are due, and ends well if all of its input was text. -/
theorem run_serve {root : Option Path} (hparse : parse? arguments = some (.run ⟨root, .serve⟩))
    (hload : Loads environment root configuration) (ha : LogApart environment configuration) :
    (run environment arguments).output =
        terminated (dueAnswers environment configuration (takenLines environment.input)) ∧
      (run environment arguments).code = if isAllText environment.input then 0 else 1 := by
  obtain ⟨houtput, hcode⟩ := run_invocation hparse hload
  obtain ⟨hserved, hended⟩ := serve_eq ha
  exact ⟨houtput.trans hserved, hcode.trans hended⟩

theorem length_dueAnswers (lines : List String) :
    (dueAnswers environment configuration lines).length =
      (lines.filter fun line => !isBlank line).length :=
  length_answers _ lines

theorem lineFeed_not_mem_dueAnswers (lines : List String) :
    ∀ answer ∈ dueAnswers environment configuration lines, '\n' ∉ answer.toList :=
  lineFeed_not_mem_answers _ lines

/-- What is due for a line and for those behind it depends on the lines before through the session
alone. -/
theorem dueAnswers_split (before : List String) (line : String) (after : List String) :
    dueAnswers environment configuration (before ++ line :: after) =
      dueAnswers environment configuration before ++
        (lineAnswers (openedTree environment configuration)
            (dueSession environment configuration before) line ++
          answers (openedTree environment configuration)
            (dueSession environment configuration (before ++ [line])) after) := by
  have hsession : dueSession environment configuration (before ++ [line]) =
      sessionAfterLine (openedTree environment configuration)
        (dueSession environment configuration before) line := by
    simp [dueSession, sessionAfter]
  rw [hsession, dueAnswers, answers_append, answers]
  rfl

theorem dueSession_idle {line : String} (h : IsIdle line) (before : List String) :
    dueSession environment configuration (before ++ [line]) =
      dueSession environment configuration before := by
  simp [dueSession, sessionAfter, h.sessionAfterLine_eq]

/-! ## The protocol -/

theorem takenLines_split {input : ByteArray} {before after : List (List UInt8)} {line : List UInt8}
    {text : String} (hi : inputLines input = before ++ line :: after)
    (hb : before.all isText = true) (ht : decodeLine? line = some text) :
    takenLines input = takenTexts before ++ text :: takenTexts after := by
  rw [takenLines, hi, takenTexts_append hb, takenTexts, ht]

/-- A line that is text decides nothing about the others. -/
theorem isAllText_without {input other : ByteArray} {before after : List (List UInt8)}
    {line : List UInt8} (hi : inputLines input = before ++ line :: after) (ht : isText line = true)
    (ho : inputLines other = before ++ after) : isAllText other = isAllText input := by
  rw [isAllText, isAllText, hi, ho]
  simp [ht]

/-- A line that is no request can be taken out of the input: its own answer goes with it, and all
else stays. -/
theorem serve_without_idle {root : Option Path}
    (hparse : parse? arguments = some (.run ⟨root, .serve⟩))
    (hload : Loads environment root configuration)
    (ha : LogApart environment configuration) {before after : List (List UInt8)}
    {line : List UInt8} {text : String}
    (hi : inputLines environment.input = before ++ line :: after)
    (hb : before.all isText = true) (ht : decodeLine? line = some text) (hidle : IsIdle text)
    {input : ByteArray} (hinput : inputLines input = before ++ after) :
    ∃ later,
      (run environment arguments).output =
          terminated (dueAnswers environment configuration (takenTexts before) ++
            ((if isBlank text then [] else ["null"]) ++ later)) ∧
        (run { environment with input } arguments).output =
          terminated (dueAnswers environment configuration (takenTexts before) ++ later) ∧
        (run { environment with input } arguments).code = (run environment arguments).code := by
  have htaken := takenLines_split hi hb ht
  have htaken' : takenLines input = takenTexts before ++ takenTexts after := by
    rw [takenLines, hinput, takenTexts_append hb]
  -- with fewer lines no more modules are read, so the log file is none of them either
  have hsubset : takenLines input ⊆ takenLines environment.input := by
    rw [htaken, htaken']
    refine List.append_subset.2 ⟨List.subset_append_left _ _, ?_⟩
    exact fun other ho => List.mem_append_right _ (List.mem_cons_of_mem _ ho)
  have hload' : Loads { environment with input } root configuration := hload
  have hline : isText line = true := Option.isSome_iff_exists.2 ⟨text, ht⟩
  obtain ⟨houtput, hcode⟩ := run_serve hparse hload ha
  obtain ⟨houtput', hcode'⟩ := run_serve hparse hload' (ha.of_subset hsubset)
  refine ⟨answers (openedTree environment configuration)
    (dueSession environment configuration (takenTexts before)) (takenTexts after), ?_, ?_, ?_⟩
  · rw [houtput, htaken, dueAnswers_split, hidle.lineAnswers_eq, dueSession_idle hidle]
  · refine houtput'.trans (congrArg terminated ?_)
    show dueAnswers environment configuration (takenLines input) = _
    rw [htaken', dueAnswers, answers_append]
    rfl
  · rw [hcode, ← isAllText_without hi hline hinput]
    exact hcode'

/-- The same for the bytes of the line and the line feed behind it. -/
theorem serve_without_bytes {root : Option Path}
    (hparse : parse? arguments = some (.run ⟨root, .serve⟩))
    (hload : Loads environment root configuration)
    (ha : LogApart environment configuration) {first line second : List UInt8} {text : String}
    (hinput : environment.input = ⟨(first ++ line ++ 10 :: second).toArray⟩)
    (hfirst : first = [] ∨ first.getLast? = some 10) (hline : 10 ∉ line)
    (hb : isAllText ⟨first.toArray⟩ = true) (ht : decodeLine? (dropReturn line) = some text)
    (hidle : IsIdle text) :
    ∃ later,
      (run environment arguments).output =
          terminated (dueAnswers environment configuration (takenLines ⟨first.toArray⟩) ++
            ((if isBlank text then [] else ["null"]) ++ later)) ∧
        (run { environment with input := ⟨(first ++ second).toArray⟩ } arguments).output =
          terminated (dueAnswers environment configuration (takenLines ⟨first.toArray⟩) ++
            later) ∧
        (run { environment with input := ⟨(first ++ second).toArray⟩ } arguments).code =
          (run environment arguments).code := by
  have hi : inputLines environment.input =
      inputLines ⟨first.toArray⟩ ++ dropReturn line :: inputLines ⟨second.toArray⟩ := by
    rw [hinput, inputLines_line hfirst hline]
  exact serve_without_idle hparse hload ha hi hb ht hidle (inputLines_append hfirst second)

/-- The line protocol, for every input. There is one line of output for each taken line that is
not blank, in order and without a line feed inside: `null` for a malformed line, and otherwise the
answer of the session that the lines before have left, or `null` as well if a relative file is asked
for and there is no working directory. Input that is not text ends the run with code 1, after all
answers due before it. A blank or malformed line leaves the session as it is,
and an input without it has the same output but for the line's own answer. -/
theorem serve_line_protocol {root : Option Path}
    (hparse : parse? arguments = some (.run ⟨root, .serve⟩))
    (hload : Loads environment root configuration)
    (ha : LogApart environment configuration) :
    (run environment arguments).output =
        terminated (dueAnswers environment configuration (takenLines environment.input)) ∧
      (dueAnswers environment configuration (takenLines environment.input)).length =
        ((takenLines environment.input).filter fun line => !isBlank line).length ∧
      (∀ answer ∈ dueAnswers environment configuration (takenLines environment.input),
        '\n' ∉ answer.toList) ∧
      (∀ before line after, takenLines environment.input = before ++ line :: after →
        dueAnswers environment configuration (takenLines environment.input) =
          dueAnswers environment configuration before ++
            (lineAnswers (openedTree environment configuration)
                (dueSession environment configuration before) line ++
              answers (openedTree environment configuration)
                (dueSession environment configuration (before ++ [line])) after)) ∧
      (run environment arguments).code = (if isAllText environment.input then 0 else 1) ∧
      ∀ before line after text, inputLines environment.input = before ++ line :: after →
        before.all isText = true → decodeLine? line = some text → IsIdle text →
        dueSession environment configuration (takenTexts before ++ [text]) =
            dueSession environment configuration (takenTexts before) ∧
          ∀ input, inputLines input = before ++ after →
            ∃ later,
              (run environment arguments).output =
                  terminated (dueAnswers environment configuration (takenTexts before) ++
                    ((if isBlank text then [] else ["null"]) ++ later)) ∧
                (run { environment with input } arguments).output =
                  terminated (dueAnswers environment configuration (takenTexts before) ++ later) ∧
                (run { environment with input } arguments).code =
                  (run environment arguments).code := by
  obtain ⟨houtput, hcode⟩ := run_serve hparse hload ha
  refine ⟨houtput, length_dueAnswers _, lineFeed_not_mem_dueAnswers _, ?_, hcode, ?_⟩
  · intro before line after hlines
    rw [hlines, dueAnswers_split]
  · intro before line after text hi hb ht hidle
    refine ⟨dueSession_idle hidle _, fun input hinput => ?_⟩
    exact serve_without_idle hparse hload ha hi hb ht hidle hinput

/-- A request behind the alias of a module, and the line that makes it. -/
def memberRequest : CompletionRequest :=
  ⟨⟨"/m/b.js"⟩, "import * as A from './a.js'\nA.", [30]⟩

def memberLine : String := "[\"/m/b.js\", \"import * as A from './a.js'\\nA.\", [30]]"

/-- That request twice, with a malformed line in between, on files with one module. -/
def threeLines : Environment where
  tree := .oneModule "export let a = 1;" ⟨5, 0⟩
  input := (memberLine ++ "\noops\n" ++ memberLine ++ "\n").toUTF8
  programDirectory := ⟨"/bin"⟩
  logVariable := none
  now := ⟨9, 0⟩

theorem parse?_memberLine : CompletionRequest.parse? memberLine = some memberRequest := by
  decide +kernel

theorem takenLines_threeLines :
    takenLines threeLines.input = [memberLine, "oops", memberLine] := by
  decide +kernel

/-- The log lies beside the program, and the module that is read lies elsewhere. -/
theorem logApart_threeLines : LogApart threeLines {} := by
  have hmalformed : CompletionRequest.parse? "oops" = none := by decide +kernel
  have hbuffer : memberRequest.buffer (openedTree threeLines {}) =
      .ok ⟨memberRequest.text, some memberRequest.file⟩ := by rfl
  have hread : Uncached.modulesRead {} (openedTree threeLines {})
      ⟨memberRequest.text, some memberRequest.file⟩ memberRequest.locations =
        [⟨"/m/a.js"⟩] := by decide +kernel
  have hfile : (openedJournal threeLines {}).file = some ["log.txt", "bin"] := by decide +kernel
  have hresolved : (openedTree threeLines {}).resolve ⟨"/m/a.js"⟩ = .ok ["a.js", "m"] := by rfl
  intro line hl request hr buffer hb path hp location hlog
  have hrequest : request = memberRequest := by
    rw [takenLines_threeLines] at hl
    obtain rfl | rfl : line = memberLine ∨ line = "oops" := by simpa [or_comm] using hl
    · exact Option.some.inj (hr.symm.trans parse?_memberLine)
    · rw [hmalformed] at hr
      cases hr
  rw [hrequest, hbuffer] at hb
  cases hb
  rw [hrequest, hread] at hp
  rw [List.mem_singleton.1 hp, hresolved]
  rw [hfile] at hlog
  cases hlog
  exact fun he => absurd (Except.ok.inj he) (by decide)

/-- The malformed line has its answer between those of the requests. -/
theorem serve_threeLines :
    parse? ["serve"] = some (.run ⟨none, .serve⟩) ∧ Loads threeLines none {} ∧
      LogApart threeLines {} ∧
      (run threeLines ["serve"]).output =
        "[[\"a\\ta.js\",\"a\"]]\nnull\n[[\"a\\ta.js\",\"a\"]]\n" ∧
      (run threeLines ["serve"]).code = 0 := by
  have hparse : parse? ["serve"] = some (.run ⟨none, .serve⟩) := by decide +kernel
  have hload : Loads threeLines none {} := by rfl
  obtain ⟨houtput, -, -, -, hcode, -⟩ := serve_line_protocol hparse hload logApart_threeLines
  have hdue : terminated (dueAnswers threeLines {} (takenLines threeLines.input)) =
      "[[\"a\\ta.js\",\"a\"]]\nnull\n[[\"a\\ta.js\",\"a\"]]\n" := by decide +kernel
  have hall : isAllText threeLines.input = true := by decide +kernel
  exact ⟨hparse, hload, logApart_threeLines, houtput.trans hdue, by rw [hcode, hall]; rfl⟩

end EsmCompletion.CommandLine
