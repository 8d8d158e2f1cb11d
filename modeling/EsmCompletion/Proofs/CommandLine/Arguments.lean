import EsmCompletion.CommandLine.Arguments

/-! # Arguments that ask for completions

Every completion whose file is named and whose offsets fit into 64 bits can be asked for: the
options go first and the file behind `--`, where it may start with a hyphen. The root is written
with an equals sign for the same reason. -/

namespace EsmCompletion

/-- What starts with a digit starts with no sign. -/
theorem exists_digit_toString (n : Nat) :
    ∃ c rest, (toString n).toList = c :: rest ∧ c.isDigit = true := by
  obtain ⟨c, rest, hc⟩ := List.exists_cons_of_ne_nil (Nat.toDigits_ne_nil (n := n) (b := 10))
  rw [← toList_toString] at hc
  exact ⟨c, rest, hc, isDigit_of_mem_toString (hc ▸ List.mem_cons_self ..)⟩

namespace CommandLine

/-! ## Offsets -/

theorem offset?_toString {n : Nat} (h : n < wordBound) : offset? (toString n) = some n := by
  obtain ⟨c, rest, hc, hd⟩ := exists_digit_toString n
  rw [offset?, ← decimalWord?_toString h, signedWord?.eq_def]
  split
  · rename_i hplus
    rw [hc] at hplus
    cases hplus
    cases hd
  · rfl

theorem isValue_toString (n : Nat) : isValue (toString n) = true := by
  obtain ⟨c, rest, hc, hd⟩ := exists_digit_toString n
  unfold isValue
  split
  · rename_i hminus
    rw [hc] at hminus
    cases hminus
    cases hd
  · rfl

theorem read?_offset {given : Given} (hcommand : given.command = some .complete) {n : Nat}
    (h : n < wordBound) (rest : List String) :
    read? given ("--offset" :: toString n :: rest) =
      read? { given with offsets := given.offsets ++ [n] } rest := by
  have hstep : step? given "--offset" = some (.awaiting .offset) := by
    have hlong : step? given "--offset" = longStep? given .offset none := by rfl
    rw [hlong]
    unfold longStep?
    rw [hcommand]
    rfl
  have htaken : given.withValue? .offset (toString n) =
      some { given with offsets := given.offsets ++ [n] } := by
    unfold Given.withValue?
    rw [offset?_toString h]
    rfl
  rw [read?, if_neg (by decide), hstep]
  simp only [isValue_toString, if_true, htaken, Option.bind_some]

theorem read?_offsets (offsets : List Nat) (h : ∀ n ∈ offsets, n < wordBound) {given : Given}
    (hcommand : given.command = some .complete) (rest : List String) :
    read? given ((offsets.flatMap fun n => ["--offset", toString n]) ++ rest) =
      read? { given with offsets := given.offsets ++ offsets } rest := by
  induction offsets generalizing given with
  | nil => simp
  | cons n others ih =>
    have hothers : read? { given with offsets := given.offsets ++ [n] }
        ((others.flatMap fun n => ["--offset", toString n]) ++ rest) =
          read? { given with offsets := given.offsets ++ [n] ++ others } rest :=
      ih (fun m hm => h m (List.mem_cons_of_mem _ hm)) hcommand
    rw [List.flatMap_cons, List.append_assoc]
    refine (read?_offset hcommand (h n (List.mem_cons_self ..)) _).trans (hothers.trans ?_)
    rw [List.append_assoc, List.singleton_append]

/-! ## A whole command -/

/-- Arguments that ask for the completions at offsets in the text on the input, as JSON. -/
def completeArguments (root : Option Path) (file : Path) (offsets : List Nat) : List String :=
  (root.map fun directory => "--root=" ++ directory.text).toList ++
    ["complete", "--stdin", "--format", "json"] ++
      ((offsets.flatMap fun n => ["--offset", toString n]) ++ ["--", file.text])

theorem read?_file {given : Given} (hcommand : given.command = some .complete)
    (hnone : given.file = none) {file : Path} (hfile : file.text ≠ "") :
    read? given ["--", file.text] =
      ({ given with file := some file } : Given).invocation?.map .run := by
  have hplain : given.withPlain? file.text = some { given with file := some file } := by
    simp [Given.withPlain?, hcommand, hnone, path?, hfile]
  have hrest : given.withRest? [file.text] = some { given with file := some file } := by
    simp [Given.withRest?, hcommand, hplain]
  rw [read?, if_pos rfl, hrest, Option.bind_some]

theorem toList_root (directory : Path) : ("--root=" ++ directory.text).toList =
    '-' :: '-' :: 'r' :: 'o' :: 'o' :: 't' :: '=' :: directory.text.toList := by
  rw [String.toList_append]
  rfl

theorem step?_root {directory : Path} (hd : directory.text ≠ "") :
    step? {} ("--root=" ++ directory.text) =
      some (.taken { outerRoot := some directory }) := by
  have hpath : path? directory.text = some directory := by
    rw [path?, if_neg hd]
  unfold step?
  rw [toList_root]
  simp [Flag.long?, longStep?, Flag.allowed, Given.withValue?, hpath]

/-- The arguments ask for what they are made from. -/
theorem parse?_completeArguments {root : Option Path}
    (hr : ∀ directory, root = some directory → directory.text ≠ "") {file : Path}
    (hfile : file.text ≠ "") {offsets : List Nat} (ho : ∀ n ∈ offsets, n < wordBound) :
    parse? (completeArguments root file offsets) =
      some (.run ⟨root, .complete file offsets true "json"⟩) := by
  have hoptions (rest : List String) :
      read? { outerRoot := root } (["complete", "--stdin", "--format", "json"] ++ rest) =
        read? { outerRoot := root, command := some .complete, input := true, format := some "json" }
          rest := by rfl
  have hroot (rest : List String) :
      parse? ((root.map fun directory => "--root=" ++ directory.text).toList ++ rest) =
        read? { outerRoot := root } rest := by
    cases root with
    | none => rfl
    | some directory =>
      have hne : "--root=" ++ directory.text ≠ "--" := by
        intro he
        have hlist := congrArg String.toList he
        rw [toList_root] at hlist
        cases hlist
      have hstep := step?_root (hr directory rfl)
      simp [parse?, read?, hne, hstep]
  rw [completeArguments, List.append_assoc, hroot, hoptions, read?_offsets offsets ho rfl,
    read?_file rfl rfl hfile]
  rfl

/-! ## Roots -/

/-- No root that was given is empty. -/
structure Given.RootsNamed (given : Given) : Prop where
  outer : ∀ root, given.outerRoot = some root → root.text ≠ ""
  inner : ∀ root, given.innerRoot = some root → root.text ≠ ""

theorem text_ne_of_path? {text : String} {path : Path} (h : path? text = some path) :
    path.text ≠ "" := by
  unfold path? at h
  split at h
  · cases h
  · rename_i hne
    cases h
    exact hne

namespace Given.RootsNamed

variable {given next : Given}

theorem withValue? (h : given.RootsNamed) {flag : Flag} {value : String}
    (hv : given.withValue? flag value = some next) : next.RootsNamed := by
  unfold Given.withValue? at hv
  cases flag with
  | root =>
    simp only at hv
    split at hv
    · obtain ⟨root, hr, rfl⟩ := Option.map_eq_some_iff.1 hv
      exact ⟨fun other ho => by cases ho; exact text_ne_of_path? hr, h.inner⟩
    · obtain ⟨root, hr, rfl⟩ := Option.map_eq_some_iff.1 hv
      exact ⟨h.outer, fun other ho => by cases ho; exact text_ne_of_path? hr⟩
    · cases hv
  | offset =>
    obtain ⟨offset, -, rfl⟩ := Option.map_eq_some_iff.1 hv
    exact ⟨h.outer, h.inner⟩
  | format =>
    simp only at hv
    split at hv
    · cases hv
      exact ⟨h.outer, h.inner⟩
    · cases hv
  | input | version => cases hv

theorem withPlain? (h : given.RootsNamed) {argument : String}
    (hv : given.withPlain? argument = some next) : next.RootsNamed := by
  unfold Given.withPlain? at hv
  split at hv
  · obtain ⟨command, -, rfl⟩ := Option.map_eq_some_iff.1 hv
    exact ⟨h.outer, h.inner⟩
  · cases hv
  · split at hv
    · obtain ⟨file, -, rfl⟩ := Option.map_eq_some_iff.1 hv
      exact ⟨h.outer, h.inner⟩
    · cases hv

theorem foldlM (h : given.RootsNamed) {arguments : List String}
    (hv : arguments.foldlM Given.withPlain? given = some next) : next.RootsNamed := by
  induction arguments generalizing given with
  | nil =>
    cases hv
    exact h
  | cons argument rest ih =>
    rw [List.foldlM_cons] at hv
    obtain ⟨middle, hm, hr⟩ := Option.bind_eq_some_iff.1 hv
    exact ih (h.withPlain? hm) hr

theorem withRest? (h : given.RootsNamed) {arguments : List String}
    (hv : given.withRest? arguments = some next) : next.RootsNamed := by
  unfold Given.withRest? at hv
  split at hv
  · cases hv
  · exact h.foldlM hv

theorem taken (h : given.RootsNamed) {flag : Flag} {value : String}
    (hv : (given.withValue? flag value).map Step.taken = some (.taken next)) :
    next.RootsNamed := by
  obtain ⟨other, ho, he⟩ := Option.map_eq_some_iff.1 hv
  cases he
  exact h.withValue? ho

theorem longStep? (h : given.RootsNamed) {flag : Flag} {value : Option String}
    (hs : longStep? given flag value = some (.taken next)) : next.RootsNamed := by
  unfold CommandLine.longStep? at hs
  split at hs
  · split at hs
    · cases hs
    · split at hs
      · cases hs
      · cases hs
        exact ⟨h.outer, h.inner⟩
    · cases hs
    · exact h.taken hs
  · cases hs

theorem shortStep? (h : given.RootsNamed) {flag : Flag} {behind : List Char}
    (hs : shortStep? given flag behind = some (.taken next)) : next.RootsNamed := by
  unfold CommandLine.shortStep? at hs
  split at hs
  · split at hs
    · cases hs
    · cases hs
    · exact h.taken hs
    · exact h.taken hs
  · cases hs

theorem step? (h : given.RootsNamed) {argument : String}
    (hs : step? given argument = some (.taken next)) : next.RootsNamed := by
  unfold CommandLine.step? at hs
  split at hs
  · obtain ⟨flag, -, hf⟩ := Option.bind_eq_some_iff.1 hs
    exact h.longStep? hf
  · obtain ⟨flag, -, hf⟩ := Option.bind_eq_some_iff.1 hs
    exact h.shortStep? hf
  · obtain ⟨other, ho, he⟩ := Option.map_eq_some_iff.1 hs
    cases he
    exact h.withPlain? ho

end Given.RootsNamed

theorem Given.root_of_invocation? {given : Given} {invocation : Invocation}
    (h : given.invocation? = some invocation) :
    invocation.root = given.innerRoot.or given.outerRoot := by
  unfold Given.invocation? at h
  obtain ⟨command, -, hc⟩ := Option.bind_eq_some_iff.1 h
  cases command with
  | complete | exports =>
    cases hf : given.file with
    | none =>
      rw [hf] at hc
      cases hc
    | some file =>
      rw [hf] at hc
      cases hc
      rfl
  | serve =>
    cases hc
    rfl

theorem Given.RootsNamed.invocation? {given : Given} (h : given.RootsNamed)
    {request : Option Invocation} (hi : given.invocation? = request) {invocation : Invocation}
    (hr : request.map Request.run = some (.run invocation)) :
    ∀ root, invocation.root = some root → root.text ≠ "" := by
  intro root hroot
  obtain ⟨other, ho, he⟩ := Option.map_eq_some_iff.1 hr
  cases he
  rw [Given.root_of_invocation? (hi.trans ho)] at hroot
  cases hinner : given.innerRoot with
  | none => exact h.outer root (by simpa [hinner] using hroot)
  | some inner => exact h.inner root (by simpa [hinner] using hroot)

theorem Given.RootsNamed.read? {given : Given} (h : given.RootsNamed) {arguments : List String}
    {invocation : Invocation} (hr : read? given arguments = some (.run invocation)) :
    ∀ root, invocation.root = some root → root.text ≠ "" := by
  -- one or two arguments at a time, as they are taken
  fun_induction CommandLine.read? given arguments with
  | case1 given => exact h.invocation? rfl hr
  | case2 given rest =>
    cases hw : given.withRest? rest with
    | none =>
      rw [hw] at hr
      cases hr
    | some last =>
      rw [hw] at hr
      exact (h.withRest? hw).invocation? rfl hr
  | case3 | case4 | case6 | case8 => cases hr
  | case5 given argument rest _ next hs ih => exact ih (h.step? hs) hr
  | case7 given argument _ flag hs value rest _ ih =>
    obtain ⟨next, hn, hnext⟩ := Option.bind_eq_some_iff.1 hr
    exact ih next (h.withValue? hn) hnext

/-- The root of an invocation is never empty. -/
theorem root_ne_empty_of_parse? {arguments : List String} {invocation : Invocation}
    (h : parse? arguments = some (.run invocation)) :
    ∀ root, invocation.root = some root → root.text ≠ "" := by
  have hempty : ({} : Given).RootsNamed := ⟨nofun, nofun⟩
  exact hempty.read? h

end CommandLine

end EsmCompletion
