import EsmCompletion.Proofs.CommandLine.Arguments
import EsmCompletion.Proofs.CommandLine.Effects

/-! # A server and single runs agree

A request to a server has the answer that a run of its own would print for it, whatever was asked
before it. On the one side the session has gone through all earlier lines, on the other it is new;
both have a cache that is faithful to the files, so both answer as if there were none. -/

namespace EsmCompletion.CommandLine

/-! ## Locations that requests can have -/

theorem lt_of_decimalWord? {text : List Char} {n : Nat} (h : decimalWord? text = some n) :
    n < wordBound := by
  unfold decimalWord? at h
  split at h
  · rename_i hfits
    cases h
    exact hfits.2.2
  · cases h

theorem lt_of_natural? {value : Json} {n : Nat} (h : value.natural? = some n) : n < wordBound := by
  cases value with
  | number digits => exact lt_of_decimalWord? h
  | _ => cases h

theorem lt_of_mapM_natural? {items : List Json} {numbers : List Nat}
    (h : items.mapM Json.natural? = some numbers) : ∀ n ∈ numbers, n < wordBound := by
  induction items generalizing numbers with
  | nil =>
    cases h
    simp
  | cons item rest ih =>
    rw [List.mapM_cons] at h
    obtain ⟨first, hfirst, h⟩ := Option.bind_eq_some_iff.1 h
    obtain ⟨others, hothers, h⟩ := Option.bind_eq_some_iff.1 h
    cases h
    intro n hn
    rcases List.mem_cons.1 hn with rfl | hn
    · exact lt_of_natural? hfirst
    · exact ih hothers n hn

/-- The locations of a request fit into 64 bits. -/
theorem CompletionRequest.locations_lt {line : String} {request : CompletionRequest}
    (h : parse? line = some request) : ∀ n ∈ request.locations, n < wordBound := by
  obtain ⟨value, -, hv⟩ := Option.bind_eq_some_iff.1 h
  unfold ofJson? at hv
  split at hv
  · rename_i locations _
    obtain ⟨file, -, hv⟩ := Option.bind_eq_some_iff.1 hv
    obtain ⟨text, -, hv⟩ := Option.bind_eq_some_iff.1 hv
    obtain ⟨numbers, hnumbers, hv⟩ := Option.bind_eq_some_iff.1 hv
    cases hv
    cases locations with
    | array items => exact lt_of_mapM_natural? hnumbers
    | _ => cases hnumbers
  · cases hv

/-! ## The lines of an output -/

/-- The lines of an output that are ended by a line feed. -/
def outputLines (output : String) : List String :=
  ((output.toList.splitOn '\n').map String.ofList).dropLast

theorem splitOn_terminated {lines : List String} (h : ∀ line ∈ lines, '\n' ∉ line.toList) :
    (terminated lines).toList.splitOn '\n' = lines.map String.toList ++ [[]] := by
  induction lines with
  | nil => rfl
  | cons line rest ih =>
    have hline := h line (List.mem_cons_self ..)
    have hrest := ih fun other ho => h other (List.mem_cons_of_mem _ ho)
    have htext : (terminated (line :: rest)).toList =
        line.toList ++ '\n' :: (terminated rest).toList := by
      simp [terminated, String.toList_join]
    rw [htext, List.splitOn_append_cons_self_of_not_mem hline, hrest]
    rfl

/-- Lines that are ended by line feeds are found again. -/
theorem outputLines_terminated {lines : List String} (h : ∀ line ∈ lines, '\n' ∉ line.toList) :
    outputLines (terminated lines) = lines := by
  simp [outputLines, splitOn_terminated h]

/-! ## One answer from both -/

/-- A response in which no answer stands for no suggestions. -/
def nullAsEmpty (response : String) : String := if response = "null" then "[]" else response

theorem nullAsEmpty_writeAnswer (answer : Option (List Suggestion)) :
    nullAsEmpty (writeAnswer answer) = ListFormat.writeJson (answer.getD []) := by
  cases answer with
  | none => decide
  | some suggestions =>
    have hne : ListFormat.writeJson suggestions ≠ "null" := by
      intro he
      have hlist := congrArg String.toList he
      rw [ListFormat.writeJson, String.toList_ofList] at hlist
      cases hlist
    exact if_neg hne

variable {environment : Environment} {arguments : List String} {configuration : Configuration}
  {request : CompletionRequest}

/-- The session of a server answers as a new one does, on the files of the beginning. -/
theorem answer_dueSession (before : List String) (request : CompletionRequest) :
    (requestOutcome (openedTree environment configuration)
        (dueSession environment configuration before) request).answer =
      (requestOutcome (openedTree environment configuration) (.new configuration)
        request).answer := by
  have hempty := Session.faithful_new configuration [openedTree environment configuration]
  obtain ⟨hconfiguration, hcache⟩ := sessionAfter_spec before hempty
  rw [dueSession, (requestOutcome_of_faithful hcache request).1, hconfiguration]
  rfl

/-- A completion for a request whose buffer is known prints the answer of a new session, if the log
is none of the modules that it reads. -/
theorem complete_eq {journal : Log.Journal} {tree : FileTree} {path : Path}
    (hpath : tree.absolutePath request.file = .ok path)
    (ha : ∀ module ∈ Uncached.modulesRead configuration tree ⟨request.text, some path⟩
      request.locations, tree.Avoids journal.file module)
    (hloc : request.locations ≠ []) {format : String}
    (hformat : ListFormat.named? format = some .json) :
    (complete { environment with input := request.text.toUTF8 } configuration journal tree
          request.file request.locations true format).output =
        nullAsEmpty (writeAnswer (requestOutcome tree (.new configuration) request).answer) ++
          "\n" ∧
      (complete { environment with input := request.text.toUTF8 } configuration journal tree
          request.file request.locations true format).code = 0 := by
  have hplaces : placesIn ⟨request.text, some path⟩ request.locations = request.locations :=
    if_neg (by simpa using hloc)
  have htext : bufferText { environment with input := request.text.toUTF8 } tree path true =
      .ok request.text := by
    simp only [bufferText, if_true, fromUTF8?_toUTF8]
  obtain ⟨hcode, houtput⟩ := complete_of_text hformat hpath htext request.locations
  refine ⟨houtput.trans ?_, hcode⟩
  rw [completed_eq (Log.Journal.keepsBesides (.refl _ tree)) (by rwa [hplaces]), completed, hplaces,
    nullAsEmpty_writeAnswer, requestOutcome_of_buffer (buffer_of_absolutePath hpath)]
  rfl

/-- The response that a request on a taken line is due. -/
theorem dueAnswers_request {before after : List String} {line : String}
    (hr : CompletionRequest.parse? line = some request) :
    (dueAnswers environment configuration (before ++ line :: after))[(before.filter fun line =>
        !isBlank line).length]? =
      some (writeAnswer (requestOutcome (openedTree environment configuration)
        (.new configuration) request).answer) := by
  have hblank : isBlank line = false := by
    rw [Bool.eq_false_iff]
    intro hb
    rw [CompletionRequest.parse?_of_isBlank hb] at hr
    cases hr
  have hline : lineAnswers (openedTree environment configuration)
      (dueSession environment configuration before) line =
        [writeAnswer (requestOutcome (openedTree environment configuration)
          (.new configuration) request).answer] := by
    rw [← answer_dueSession before request, lineAnswers, hblank, hr]
    rfl
  have hlength : (dueAnswers environment configuration before).length = _ :=
    length_dueAnswers before
  rw [dueAnswers_split, hline, ← hlength, List.getElem?_append_right (Nat.le_refl _),
    Nat.sub_self]
  rfl

/-- Arguments that ask for the completions of a request, with its text on the input and as JSON. -/
def Asks (single : List String) (other : Option Path) (request : CompletionRequest) : Prop :=
  ∃ format, ListFormat.named? format = some .json ∧
    parse? single = some (.run ⟨other, .complete request.file request.locations true format⟩)

/-- A run of its own prints the answer of a new session. -/
theorem Asks.run_eq {single : List String} {other : Option Path} (h : Asks single other request)
    (hload : Loads environment other configuration) {path : Path}
    (hpath : (openedTree environment configuration).absolutePath request.file = .ok path)
    (ha : ∀ module ∈ Uncached.modulesRead configuration (openedTree environment configuration)
        ⟨request.text, some path⟩ request.locations,
      (openedTree environment configuration).Avoids (openedJournal environment configuration).file
        module)
    (hloc : request.locations ≠ []) :
    (run { environment with input := request.text.toUTF8 } single).output =
        nullAsEmpty (writeAnswer (requestOutcome (openedTree environment configuration)
          (.new configuration) request).answer) ++ "\n" ∧
      (run { environment with input := request.text.toUTF8 } single).code = 0 := by
  obtain ⟨format, hformat, hparse⟩ := h
  have hloaded : Loads { environment with input := request.text.toUTF8 } other configuration :=
    hload
  obtain ⟨houtput, hcode⟩ := run_invocation hparse hloaded
  obtain ⟨hprinted, hended⟩ := complete_eq hpath ha hloc hformat
  exact ⟨houtput.trans hprinted, hcode.trans hended⟩

/-- The two front ends agree. In a working directory, a request on any line of the input of a
server, behind whatever lines, has the response, `null` read as an empty list, that a run of its own
prints for the same file, text and locations; and there are arguments that ask for that run. -/
theorem front_ends_agree {root : Option Path}
    (hparse : parse? arguments = some (.run ⟨root, .serve⟩))
    (hload : Loads environment root configuration) {directory : Location}
    (hdirectory : environment.tree.workingDirectory = some directory)
    (ha : LogApart environment configuration) {before after : List String} {line : String}
    (hl : takenLines environment.input = before ++ line :: after)
    (hr : CompletionRequest.parse? line = some request) (hfile : request.file.text ≠ "")
    (hloc : request.locations ≠ []) :
    Asks (completeArguments root request.file request.locations) root request ∧
      ∃ response,
        (outputLines (run environment arguments).output)[(before.filter fun line =>
          !isBlank line).length]? = some response ∧
        ∀ single other, Asks single other request → Loads environment other configuration →
          (run { environment with input := request.text.toUTF8 } single).output =
              nullAsEmpty response ++ "\n" ∧
            (run { environment with input := request.text.toUTF8 } single).code = 0 := by
  have hasks : Asks (completeArguments root request.file request.locations) root request :=
    ⟨"json", rfl, parse?_completeArguments (root_ne_empty_of_parse? hparse) hfile
      (CompletionRequest.locations_lt hr)⟩
  have hopened : (openedTree environment configuration).workingDirectory = some directory :=
    (opens_openLog environment configuration).1.workingDirectory.trans hdirectory
  have hpath := FileTree.absolutePath_of_workingDirectory hopened request.file
  have htaken : line ∈ takenLines environment.input :=
    hl ▸ List.mem_append_right _ (List.mem_cons_self ..)
  have hapart := ha line htaken request hr _ (buffer_of_absolutePath hpath)
  obtain ⟨houtput, -⟩ := run_serve hparse hload ha
  refine ⟨hasks, _, ?_, fun single other hsingle hloaded =>
    hsingle.run_eq hloaded hpath hapart hloc⟩
  rw [houtput, outputLines_terminated (lineFeed_not_mem_dueAnswers _), hl]
  exact dueAnswers_request hr

/-- The second of two equal requests, with a malformed line in between. -/
theorem front_ends_agree_threeLines :
    ∃ response, (outputLines (run threeLines ["serve"]).output)[2]? = some response ∧
      (run { threeLines with input := memberRequest.text.toUTF8 }
          ["complete", "--stdin", "--format", "json", "--offset", "30", "--", "/m/b.js"]).output =
        nullAsEmpty response ++ "\n" := by
  have hparse : parse? ["serve"] = some (.run ⟨none, .serve⟩) := by decide +kernel
  have hload : Loads threeLines none {} := by rfl
  have hlines : takenLines threeLines.input = [memberLine, "oops"] ++ memberLine :: [] :=
    takenLines_threeLines
  have hfile : memberRequest.file.text ≠ "" := by decide
  have hloc : memberRequest.locations ≠ [] := by decide
  obtain ⟨hasks, response, hresponse, hsingle⟩ :=
    front_ends_agree hparse hload rfl logApart_threeLines hlines parse?_memberLine hfile hloc
  exact ⟨response, hresponse, (hsingle _ none hasks hload).1⟩

end EsmCompletion.CommandLine
