import EsmCompletion.Proofs.CommandLine.LineProtocol
import EsmCompletion.Proofs.Log.Footprint

/-! # What runs do to the files, and when a completion succeeds

A run changes no file but its log, whatever the command is. A completion succeeds exactly if the
configuration, the format and the text of the buffer are there; the modules that the buffer imports
do not matter, because a fault in one of them is the business of the log. -/

namespace EsmCompletion.CommandLine

open FileTree (LogsOnly)

variable {environment : Environment} {arguments : List String} {invocation : Invocation}
  {configuration : Configuration} {journal : Log.Journal} {log : Path} {tree other : FileTree}

/-! ## Files -/

theorem logsOnly_serveLines (h : journal.WritesTo log tree) (lines : List (List UInt8))
    (session : Session) : LogsOnly log tree (serveLines journal lines session tree).tree := by
  induction lines generalizing session tree with
  | nil => exact h.write _
  | cons line rest ih =>
    unfold serveLines
    split
    · exact .refl log tree
    · rename_i text _
      have hline := h.writeAll (respond session (journal.writeAll tree) text).events
      exact hline.trans (ih (h.grow hline.grows) _)

theorem logsOnly_complete (h : journal.WritesTo log tree) (file : Path) (offsets : List Nat)
    (fromInput : Bool) (format : String) :
    LogsOnly log tree
      (complete environment configuration journal tree file offsets fromInput format).tree := by
  unfold complete
  split
  · exact .refl log tree
  · split
    · exact .refl log tree
    · split
      · exact .refl log tree
      · simp only [Report.success]
        exact h.writeAll _

theorem tree_listExports (file : Path) (format : String) :
    (listExports tree file format).tree = tree := by
  unfold listExports
  split
  · rfl
  · split
    · rfl
    · split <;> rfl

theorem logsOnly_serve (h : journal.WritesTo log tree) :
    LogsOnly log tree (serve environment configuration journal tree).tree := by
  have hserving := h.write .serving
  have hserved := hserving.trans (logsOnly_serveLines (h.grow hserving.grows)
    (inputLines environment.input) (.new configuration))
  unfold serve
  simp only
  split <;> exact hserved

theorem logsOnly_execute (h : journal.WritesTo log tree) (command : Command) :
    LogsOnly log tree (execute environment configuration journal tree command).tree := by
  cases command with
  | complete file offsets fromInput format => exact logsOnly_complete h file offsets fromInput format
  | «exports» file format =>
    rw [execute, tree_listExports]
    exact .refl log tree
  | serve => exact logsOnly_serve h

def logPath (environment : Environment) (configuration : Configuration) : Path :=
  configuration.logPath environment.programDirectory

theorem opens_openLog (environment : Environment) (configuration : Configuration) :
    LogsOnly (logPath environment configuration) environment.tree
        (openedTree environment configuration) ∧
      (openedJournal environment configuration).WritesTo (logPath environment configuration)
        (openedTree environment configuration) := by
  have hopens := LogsOnly.opens_openFile (configuration.logPath environment.programDirectory)
    environment.tree environment.now
  unfold logPath openedTree openedJournal openLog
  simp only
  generalize Log.openFile environment.tree (configuration.logPath environment.programDirectory)
    environment.now = opened at hopens
  obtain ⟨changed, answer⟩ := opened
  cases answer with
  | error fault => exact ⟨hopens.logsOnly, nofun⟩
  | ok location =>
    refine ⟨hopens.logsOnly, fun place hp => ?_⟩
    cases hp
    exact hopens.found location rfl

/-- A run leaves the files as they are, but for its log. -/
theorem logsOnly_run (hparse : parse? arguments = some (.run invocation))
    (hload : Loads environment invocation.root configuration) :
    LogsOnly (logPath environment configuration) environment.tree
      (run environment arguments).tree := by
  obtain ⟨hopened, hwrites⟩ := opens_openLog environment configuration
  have hrun : (run environment arguments).tree =
      (execute environment configuration (openedJournal environment configuration)
        (openedTree environment configuration) invocation.command).tree := by
    unfold Loads at hload
    rw [run_eq_invoke hparse]
    unfold invoke
    rw [hload]
    rfl
  rw [hrun]
  exact hopened.trans (logsOnly_execute hwrites invocation.command)

theorem run_of_error (hparse : parse? arguments = some (.run invocation))
    {fault : ConfigurationFault} (hload : Configuration.load environment.tree
      (rootDirectory environment.tree invocation.root) = .error fault) :
    run environment arguments = .failure environment.tree fault.message := by
  rw [run_eq_invoke hparse]
  unfold invoke
  rw [hload]

/-! ## Exit codes of completions -/

/-- The file in which a run looks for its configuration. -/
def configurationFile (environment : Environment) (root : Option Path) : Path :=
  Configuration.fileIn (rootDirectory environment.tree root)

/-- All that a completion needs: a configuration, unless there is no file for one, a format, and the
text of the buffer under its absolute path, which is told in any working directory. -/
structure Needed (environment : Environment) (root : Option Path) (file : Path) (fromInput : Bool)
    (format : String) : Prop where
  configured : (∃ fault, environment.tree.find (configurationFile environment root) =
      .error fault) ∨
    ∃ text configuration, environment.tree.readText (configurationFile environment root) =
      .ok text ∧ Configuration.parse? text = some configuration
  formatted : ∃ form, ListFormat.named? format = some form
  readable : ∃ path text, environment.tree.absolutePath file = .ok path ∧
    bufferText environment environment.tree path fromInput = .ok text

/-- Once the log is open, its path does not lead to the file of the buffer. -/
def BufferApart (environment : Environment) (root : Option Path) (file : Path) : Prop :=
  ∀ configuration, Loads environment root configuration →
    ∀ path, environment.tree.absolutePath file = .ok path →
    ∀ place, (openedTree environment configuration).resolve (logPath environment configuration) =
        .ok place →
      (openedTree environment configuration).resolve path ≠ .ok place

theorem exists_loads_iff {root : Option Path} :
    (∃ configuration, Loads environment root configuration) ↔
      (∃ fault, environment.tree.find (configurationFile environment root) = .error fault) ∨
        ∃ text configuration, environment.tree.readText (configurationFile environment root) =
          .ok text ∧ Configuration.parse? text = some configuration := by
  unfold Loads Configuration.load configurationFile
  generalize Configuration.fileIn (rootDirectory environment.tree root) = path
  cases hf : environment.tree.find path with
  | error fault => simp
  | ok entry =>
    cases hr : environment.tree.readText path with
    | error fault => simp
    | ok text => cases hp : Configuration.parse? text <;> simp [hp]

/-- The suggestions that a completion prints: those of a new session, or none after a fault. -/
def completed (configuration : Configuration) (files : FileCourse) (buffer : Buffer)
    (offsets : List Nat) : List Suggestion :=
  ((Session.new configuration).queryAlong files buffer (placesIn buffer offsets)).answer.getD []

/-- A completion that reads no file that changes is one on files that stay as they are. -/
theorem completed_eq {files : FileCourse} {changing : Option Location}
    (h : files.KeepsBesides changing tree) {buffer : Buffer} {offsets : List Nat}
    (ha : ∀ path ∈ Uncached.modulesRead configuration tree buffer (placesIn buffer offsets),
      tree.Avoids changing path) :
    completed configuration files buffer offsets =
      completed configuration (.still tree) buffer offsets := by
  have hempty := Session.faithful_new configuration [tree]
  have hquery : (Session.new configuration).queryAlong files buffer (placesIn buffer offsets) =
      (Session.new configuration).query tree buffer (placesIn buffer offsets) := by
    refine Session.queryAlong_eq h ?_
    rw [Session.fetched_eq_modulesRead hempty]
    exact ha
  rw [completed, hquery]
  rfl

/-- The log file is none of the modules that a completion reads. -/
def ModulesApart (environment : Environment) (configuration : Configuration) (buffer : Buffer)
    (offsets : List Nat) : Prop :=
  ∀ path ∈ Uncached.modulesRead configuration (openedTree environment configuration) buffer
      (placesIn buffer offsets),
    (openedTree environment configuration).Avoids (openedJournal environment configuration).file
      path

theorem complete_of_text {file path : Path} {fromInput : Bool} {format : String}
    {form : ListFormat} {text : String} (hformat : ListFormat.named? format = some form)
    (hpath : tree.absolutePath file = .ok path)
    (htext : bufferText environment tree path fromInput = .ok text) (offsets : List Nat) :
    (complete environment configuration journal tree file offsets fromInput format).code = 0 ∧
      (complete environment configuration journal tree file offsets fromInput format).output =
        form.write (completed configuration (journal.writeAll tree) ⟨text, some path⟩ offsets) ++
          "\n" := by
  unfold complete
  rw [hformat]
  simp only [hpath, htext]
  exact ⟨rfl, rfl⟩

theorem complete_without {file : Path} {fromInput : Bool} {format : String}
    (h : ListFormat.named? format = none ∨ ∀ path, tree.absolutePath file = .ok path →
      ∀ text, bufferText environment tree path fromInput ≠ .ok text)
    (offsets : List Nat) :
    (complete environment configuration journal tree file offsets fromInput format).code = 1 ∧
      (complete environment configuration journal tree file offsets fromInput format).output =
        "" := by
  unfold complete
  cases hformat : ListFormat.named? format with
  | none => exact ⟨rfl, rfl⟩
  | some form =>
    simp only
    cases hpath : tree.absolutePath file with
    | error fault => exact ⟨rfl, rfl⟩
    | ok path =>
      simp only
      cases htext : bufferText environment tree path fromInput with
      | error complaint => exact ⟨rfl, rfl⟩
      | ok text => simp [hformat, hpath, htext] at h

/-- Opening the log does not move to another directory. -/
theorem absolutePath_opened (environment : Environment) (configuration : Configuration)
    (file : Path) :
    (openedTree environment configuration).absolutePath file =
      environment.tree.absolutePath file :=
  FileTree.absolutePath_congr (opens_openLog environment configuration).1.workingDirectory file

/-- A text that comes from a file is the text of that file. -/
theorem bufferText_eq_ok {path : Path} {text : String} :
    bufferText environment tree path false = .ok text ↔ tree.readText path = .ok text := by
  unfold bufferText
  cases tree.readText path <;> simp [Except.mapError]

/-- Opening the log does not change whether and how the text of a buffer is read. -/
theorem bufferText_opened (ht : environment.tree.IsTree) {root : Option Path} {file path : Path}
    (ha : BufferApart environment root file) (hload : Loads environment root configuration)
    (hpath : environment.tree.absolutePath file = .ok path) (fromInput : Bool) (text : String) :
    bufferText environment (openedTree environment configuration) path fromInput = .ok text ↔
      bufferText environment environment.tree path fromInput = .ok text := by
  cases fromInput with
  | true => simp only [bufferText, if_true]
  | false =>
    rw [bufferText_eq_ok, bufferText_eq_ok]
    obtain ⟨habsolute, hnormal⟩ := FileTree.absolutePath_spec hpath
    exact (opens_openLog environment configuration).1.readText_iff ht habsolute hnormal
      (ha configuration hload path hpath)

/-! ## Two trees -/

/-- A path leads to the same contents in two trees, or fails alike. -/
def SameLookup (tree other : FileTree) (path : Path) : Prop :=
  (other.find path).map Entry.content = (tree.find path).map Entry.content

theorem SameLookup.readText_eq {path : Path} (h : SameLookup tree other path) :
    other.readText path = tree.readText path := by
  unfold SameLookup at h
  cases hf : tree.find path with
  | error fault =>
    cases hf' : other.find path with
    | error fault' =>
      rw [hf, hf'] at h
      cases h
      rw [FileTree.readText, FileTree.readText, hf, hf']
    | ok entry =>
      rw [hf, hf'] at h
      cases h
  | ok entry =>
    cases hf' : other.find path with
    | error fault' =>
      rw [hf, hf'] at h
      cases h
    | ok entry' =>
      rw [hf, hf'] at h
      have hcontent : entry'.content = entry.content := Except.ok.inj h
      rw [FileTree.readText_of_find hf, FileTree.readText_of_find hf', hcontent]

theorem SameLookup.exists_fault_iff {path : Path} (h : SameLookup tree other path) :
    (∃ fault, other.find path = .error fault) ↔ ∃ fault, tree.find path = .error fault := by
  unfold SameLookup at h
  cases hf : tree.find path <;> cases hf' : other.find path <;> simp_all [Except.map]

/-- What a completion needs depends on the files of the configuration and of the buffer alone. -/
theorem SameLookup.needed {root : Option Path} {file : Path} {fromInput : Bool} {format : String}
    (hdirectory : other.workingDirectory = environment.tree.workingDirectory)
    (hconfiguration : SameLookup environment.tree other (configurationFile environment root))
    (hbuffer : ∀ path, environment.tree.absolutePath file = .ok path →
      SameLookup environment.tree other path) :
    Needed { environment with tree := other } root file fromInput format ↔
      Needed environment root file fromInput format := by
  have hfile : configurationFile { environment with tree := other } root =
      configurationFile environment root := by
    simp only [configurationFile, rootDirectory, FileTree.workingPath, hdirectory]
  have hpath := FileTree.absolutePath_congr hdirectory file
  have hfind := hconfiguration.exists_fault_iff
  have htext {path : Path} (hp : environment.tree.absolutePath file = .ok path) :
      bufferText { environment with tree := other } other path fromInput =
        bufferText environment environment.tree path fromInput := by
    unfold bufferText
    rw [(hbuffer path hp).readText_eq]
  constructor
  · intro h
    obtain ⟨hconfigured, hformatted, path, text, hp, ht⟩ := h
    rw [hfile, hfind, hconfiguration.readText_eq] at hconfigured
    rw [hpath] at hp
    rw [htext hp] at ht
    exact ⟨hconfigured, hformatted, path, text, hp, ht⟩
  · intro h
    obtain ⟨hconfigured, hformatted, path, text, hp, ht⟩ := h
    refine ⟨?_, hformatted, path, text, hpath.trans hp, (htext hp).trans ht⟩
    rw [hfile, hfind, hconfiguration.readText_eq]
    exact hconfigured

/-! ## Completions -/

section Completion

variable {root : Option Path} {file : Path} {offsets : List Nat} {fromInput : Bool}
  {format : String}
  (hparse : parse? arguments = some (.run ⟨root, .complete file offsets fromInput format⟩))
  (ht : environment.tree.IsTree) (ha : BufferApart environment root file)

include hparse ht ha

theorem run_of_needed (h : Needed environment root file fromInput format) :
    (run environment arguments).code = 0 ∧
      ∃ configuration form path text, Loads environment root configuration ∧
        ListFormat.named? format = some form ∧
        environment.tree.absolutePath file = .ok path ∧
        bufferText environment environment.tree path fromInput = .ok text ∧
        (run environment arguments).output =
          form.write (completed configuration (openedCourse environment configuration)
            ⟨text, some path⟩ offsets) ++ "\n" := by
  obtain ⟨configuration, hload⟩ := exists_loads_iff.2 h.configured
  obtain ⟨form, hformat⟩ := h.formatted
  obtain ⟨path, text, hpath, htext⟩ := h.readable
  obtain ⟨houtput, hcode⟩ := run_invocation hparse hload
  have hfile := (absolutePath_opened environment configuration file).trans hpath
  have hopened := (bufferText_opened ht ha hload hpath fromInput text).2 htext
  obtain ⟨hsucceeds, hprinted⟩ := complete_of_text hformat hfile hopened offsets
  exact ⟨hcode.trans hsucceeds, configuration, form, path, text, hload, hformat, hpath, htext,
    houtput.trans hprinted⟩

theorem run_of_not_needed (h : ¬ Needed environment root file fromInput format) :
    (run environment arguments).code = 1 ∧ (run environment arguments).output = "" := by
  cases hload : Configuration.load environment.tree (rootDirectory environment.tree root) with
  | error fault =>
    rw [run_of_error hparse hload]
    exact ⟨rfl, rfl⟩
  | ok configuration =>
    obtain ⟨houtput, hcode⟩ := run_invocation hparse hload
    rw [houtput, hcode]
    refine complete_without ?_ offsets
    rw [absolutePath_opened]
    by_contra hboth
    simp only [not_or, not_forall, not_not] at hboth
    obtain ⟨hformat, path, hpath, text, htext⟩ := hboth
    refine h ⟨exists_loads_iff.1 ⟨configuration, hload⟩, Option.ne_none_iff_exists'.1 hformat,
      path, text, hpath, ?_⟩
    exact (bufferText_opened ht ha hload hpath fromInput text).1 htext

theorem code_eq_zero_iff : (run environment arguments).code = 0 ↔
    Needed environment root file fromInput format := by
  constructor
  · intro hzero
    by_contra h
    rw [(run_of_not_needed hparse ht ha h).1] at hzero
    cases hzero
  · exact fun h => (run_of_needed hparse ht ha h).1

end Completion

/-- Runs keep the files. A run whose configuration cannot be loaded changes nothing; any other
changes nothing but its log and the directories above it, and what the log held stays its beginning.
A completion succeeds, and prints a list, exactly if all that it needs is there; otherwise it ends
with code 1 and prints nothing. The list is that of a new session, on the files as they are once
the log is open unless the log is one of the modules. So in two trees that agree on the file of the
configuration and on the file of the buffer the codes are the same, whatever the modules are. -/
theorem runs_keep_files (environment : Environment)
    (hparse : parse? arguments = some (.run invocation)) :
    ((∃ fault, Configuration.load environment.tree
          (rootDirectory environment.tree invocation.root) = .error fault ∧
        (run environment arguments).tree = environment.tree) ∨
      ∃ configuration, Loads environment invocation.root configuration ∧
        LogsOnly (logPath environment configuration) environment.tree
          (run environment arguments).tree) ∧
    ∀ file offsets fromInput format,
      invocation.command = .complete file offsets fromInput format → environment.tree.IsTree →
      BufferApart environment invocation.root file →
      ((run environment arguments).code = 0 ↔
        Needed environment invocation.root file fromInput format) ∧
      ((run environment arguments).code = 0 → ∃ configuration form path text,
        Loads environment invocation.root configuration ∧
          ListFormat.named? format = some form ∧
          environment.tree.absolutePath file = .ok path ∧
          bufferText environment environment.tree path fromInput = .ok text ∧
          (run environment arguments).output =
            form.write (completed configuration (openedCourse environment configuration)
              ⟨text, some path⟩ offsets) ++ "\n" ∧
          (ModulesApart environment configuration ⟨text, some path⟩ offsets →
            completed configuration (openedCourse environment configuration)
                ⟨text, some path⟩ offsets =
              completed configuration (.still (openedTree environment configuration))
                ⟨text, some path⟩ offsets)) ∧
      ((run environment arguments).code ≠ 0 →
        (run environment arguments).code = 1 ∧ (run environment arguments).output = "") ∧
      ∀ other : FileTree, other.IsTree →
        other.workingDirectory = environment.tree.workingDirectory →
        SameLookup environment.tree other (configurationFile environment invocation.root) →
        (∀ path, environment.tree.absolutePath file = .ok path →
          SameLookup environment.tree other path) →
        BufferApart { environment with tree := other } invocation.root file →
        (run { environment with tree := other } arguments).code =
          (run environment arguments).code := by
  constructor
  · cases hload : Configuration.load environment.tree
        (rootDirectory environment.tree invocation.root) with
    | error fault =>
      refine .inl ⟨fault, rfl, ?_⟩
      rw [run_of_error hparse hload]
      rfl
    | ok configuration => exact .inr ⟨configuration, hload, logsOnly_run hparse hload⟩
  · intro file offsets fromInput format hcommand ht ha
    obtain ⟨root, command⟩ := invocation
    obtain rfl : command = .complete file offsets fromInput format := hcommand
    have hcode := code_eq_zero_iff hparse ht ha
    refine ⟨hcode, fun hzero => ?_, fun hne => ?_, ?_⟩
    · obtain ⟨-, configuration, form, path, text, hload, hformat, hpath, htext, hprinted⟩ :=
        run_of_needed hparse ht ha (hcode.1 hzero)
      exact ⟨configuration, form, path, text, hload, hformat, hpath, htext, hprinted,
        fun hapart => completed_eq (Log.Journal.keepsBesides (.refl _ _)) hapart⟩
    · exact run_of_not_needed hparse ht ha fun hneeded => hne (hcode.2 hneeded)
    · intro other hother hdirectory hconfiguration hbuffer hapart
      have hneeded : Needed { environment with tree := other } root file fromInput format ↔
          Needed environment root file fromInput format :=
        SameLookup.needed hdirectory hconfiguration hbuffer
      have hcode' := code_eq_zero_iff hparse hother hapart
      by_cases h : Needed environment root file fromInput format
      · rw [hcode.2 h, hcode'.2 (hneeded.2 h)]
      · rw [(run_of_not_needed hparse ht ha h).1,
          (run_of_not_needed hparse hother hapart (hneeded.not.2 h)).1]

/-- A directory with a buffer that imports a module. -/
def importing : FileTree :=
  (FileTree.empty.set ["m"] ⟨.directory, ⟨1, 0⟩⟩).set ["main.js", "m"]
    ⟨.file "import * as A from './a.js'\nA.".toUTF8, ⟨5, 0⟩⟩

/-- The module is there, but its text cannot be parsed. -/
def importingBroken : FileTree :=
  importing.set ["a.js", "m"] ⟨.file "export let =".toUTF8, ⟨6, 0⟩⟩

theorem isTree_importing : importing.IsTree := by
  have hm : (FileTree.empty.set ["m"] ⟨.directory, ⟨1, 0⟩⟩).entryAt? ["m"] =
      some ⟨.directory, ⟨1, 0⟩⟩ := rfl
  exact (FileTree.isTree_empty.set rfl rfl _).set hm rfl _

theorem isTree_importingBroken : importingBroken.IsTree := by
  have hm : importing.entryAt? ["m"] = some ⟨.directory, ⟨1, 0⟩⟩ := rfl
  exact isTree_importing.set hm rfl _

/-- The program lies in a directory of its own, and so does the log. -/
def environmentOf (tree : FileTree) : Environment :=
  ⟨tree, ByteArray.empty, ⟨"/bin"⟩, none, ⟨9, 0⟩⟩

def mainArguments : List String := ["complete", "--format", "json", "/m/main.js"]

/-- Beside the program, the log is apart from the buffer, whether the module is there or not. -/
theorem bufferApart_of_places {tree : FileTree} (hload : Loads (environmentOf tree) none {})
    (hlog : (openedTree (environmentOf tree) {}).resolve (logPath (environmentOf tree) {}) =
      .ok ["log.txt", "bin"])
    (hbuffer : (openedTree (environmentOf tree) {}).resolve ⟨"/m/main.js"⟩ =
      .ok ["main.js", "m"]) :
    BufferApart (environmentOf tree) none ⟨"/m/main.js"⟩ := by
  intro configuration hc path hpath place hp
  obtain rfl : ⟨"/m/main.js"⟩ = path := Except.ok.inj hpath
  obtain rfl : {} = configuration := Except.ok.inj (hload.symm.trans hc)
  obtain rfl : ["log.txt", "bin"] = place := Except.ok.inj (hlog.symm.trans hp)
  rw [hbuffer]
  exact fun he => absurd (Except.ok.inj he) (by decide)

/-- A completion succeeds with a broken module and without it, and leaves its log behind. -/
theorem completes_with_broken_module :
    (run (environmentOf importingBroken) mainArguments).code = 0 ∧
      (run (environmentOf importing) mainArguments).code = 0 ∧
      LogsOnly ⟨"/bin/log.txt"⟩ importingBroken
        (run (environmentOf importingBroken) mainArguments).tree := by
  have hparse : parse? mainArguments =
      some (.run ⟨none, .complete ⟨"/m/main.js"⟩ [] false "json"⟩) := by decide +kernel
  have hload : Loads (environmentOf importingBroken) none {} := by rfl
  have hapart := bufferApart_of_places hload (by rfl) (by rfl)
  have hapart' : BufferApart (environmentOf importing) none ⟨"/m/main.js"⟩ :=
    bufferApart_of_places (by rfl) (by rfl) (by rfl)
  obtain ⟨hkept, hcompletes⟩ := runs_keep_files (environmentOf importingBroken) hparse
  obtain ⟨hcode, -, -, hother⟩ := hcompletes ⟨"/m/main.js"⟩ [] false "json" rfl
    isTree_importingBroken hapart
  have hneeded : Needed (environmentOf importingBroken) none ⟨"/m/main.js"⟩ false "json" :=
    ⟨.inl ⟨.notFound, by rfl⟩, ⟨.json, by decide +kernel⟩,
      ⟨⟨"/m/main.js"⟩, "import * as A from './a.js'\nA.", by rfl, by rfl⟩⟩
  have hbuffer : ∀ path, importingBroken.absolutePath ⟨"/m/main.js"⟩ = .ok path →
      SameLookup importingBroken importing path := by
    rintro path hpath
    obtain rfl : ⟨"/m/main.js"⟩ = path := Except.ok.inj hpath
    rfl
  have hsame : (run (environmentOf importing) mainArguments).code = _ :=
    hother importing isTree_importing rfl (by rfl) hbuffer hapart'
  refine ⟨hcode.2 hneeded, hsame.trans (hcode.2 hneeded), ?_⟩
  rcases hkept with ⟨fault, hfault, -⟩ | ⟨configuration, hc, hlogs⟩
  · rw [hload] at hfault
    cases hfault
  · obtain rfl : {} = configuration := Except.ok.inj (hload.symm.trans hc)
    exact hlogs

end EsmCompletion.CommandLine
