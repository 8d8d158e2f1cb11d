import EsmCompletion.Proofs.Imports.Statement
import EsmCompletion.Proofs.Path.NormalForm

/-! # The scan reads line by line

The scan of a window passes from one statement to the next without a look at line breaks. As no
statement reaches over a line break, and each takes its path up to the last closing of the line, it
finds in each line the import that starts furthest to the left and no other. What an import is can so
be said about a line alone, without the scan. -/

namespace EsmCompletion.Imports

open Unicode

/-! ## Imports as they are written -/

/-- What may stand in the place of an alias. -/
def IsAlias (word : List Char) : Prop := word ≠ [] ∧ ∀ c ∈ word, isWord c = true

/-- An import as it is written, up to the quote behind its path. -/
def written (word path : List Char) : List Char :=
  opening ++ (word ++ (middle ++ (path ++ ['\''])))

/-- An import can be read at the start of a text, with a path up to one of the quotes in it. -/
structure ReadsAs (text word path : List Char) : Prop where
  isAlias : IsAlias word
  relative : IsRelative path
  stands : written word path <+: text

/-- An import at the start of a text. Its path is the longest that can be read there. -/
structure ImportAt (text word path : List Char) : Prop extends ReadsAs text word path where
  longest : ∀ longer, ReadsAs text word longer → longer.length ≤ path.length

/-- The import in a line that starts furthest to the left. -/
def FirstImport (line word path : List Char) : Prop :=
  ∃ start, ImportAt (line.drop start) word path ∧
    ∀ earlier < start, ∀ word' path', ¬ ImportAt (line.drop earlier) word' path'

theorem length_opening : opening.length = 12 := by decide

theorem length_middle : middle.length = 7 := by decide

theorem length_written (word path : List Char) :
    (written word path).length = word.length + path.length + 20 := by
  simp only [written, List.length_append, length_opening, length_middle, List.length_singleton]
  omega

theorem written_append (word path behind : List Char) :
    written word path ++ behind =
      opening ++ (word ++ (middle ++ (path ++ '\'' :: behind))) := by
  simp [written]

/-! ## What is read at a place -/

theorem after?_self_append (beginning rest : List Char) :
    after? beginning (beginning ++ rest) = some rest := by
  simp [after?]

/-- A closing is found, and none behind it is passed over. -/
theorem exists_lastClosing? (before behind : List Char) :
    ∃ count, lastClosing? (before ++ (closing ++ behind)) = some count ∧
      before.length ≤ count := by
  induction before with
  | nil =>
    rw [List.nil_append]
    show ∃ count, lastClosing? ('.' :: ("js'".toList ++ behind)) = some count ∧ _
    rw [lastClosing?]
    cases lastClosing? ("js'".toList ++ behind) with
    | some count => exact ⟨count + 1, rfl, Nat.zero_le _⟩
    | none => exact ⟨0, by simp [closing], Nat.le_refl _⟩
  | cons c before ih =>
    obtain ⟨count, hcount, hle⟩ := ih
    refine ⟨count + 1, ?_, Nat.succ_le_succ hle⟩
    rw [List.cons_append, lastClosing?, hcount]

/-- Where a relative path is followed by a quote, a path is read that is at least as long. -/
theorem exists_relativePath? {path behind : List Char} (hr : IsRelative path)
    (hfeed : '\n' ∉ behind) :
    ∃ longest, relativePath? (path ++ '\'' :: behind) = some longest ∧
      path.length ≤ longest.length := by
  obtain ⟨dots, inside, hdots, hne, hinside, rfl⟩ := hr
  obtain ⟨c, inside, rfl⟩ := List.exists_cons_of_ne_nil hne
  have htext : (dots ++ '/' :: (c :: inside ++ ".js".toList)) ++ '\'' :: behind =
      dots ++ '/' :: (c :: (inside ++ (closing ++ behind))) := by
    simp [closing]
  rw [htext]
  have hlead : leadLength? (dots ++ '/' :: (c :: (inside ++ (closing ++ behind)))) =
      some (dots.length + 1) := by
    rcases hdots with rfl | rfl <;> rfl
  have hdrop : (dots ++ '/' :: (c :: (inside ++ (closing ++ behind)))).drop (dots.length + 1) =
      c :: (inside ++ (closing ++ behind)) := by
    simp [← List.drop_drop]
  have hline : (c :: (inside ++ (closing ++ behind))).takeWhile (· ≠ '\n') =
      c :: (inside ++ (closing ++ behind)) := by
    rw [List.takeWhile_eq_self_iff, ← List.cons_append]
    intro d hd
    have hclosing : '\n' ∉ closing := by decide
    have hmem : '\n' ∉ c :: inside ++ (closing ++ behind) := by simp_all
    exact decide_eq_true fun he => hmem (he ▸ hd)
  obtain ⟨count, hcount, hle⟩ := exists_lastClosing? inside behind
  obtain ⟨before, rest, hsplit, rfl⟩ := lastClosing?_eq_some hcount
  refine ⟨(dots ++ '/' :: (c :: (inside ++ (closing ++ behind)))).take
    (dots.length + 1 + before.length + 4), ?_, ?_⟩
  · rw [relativePath?, hlead]
    simp only [Option.bind_eq_bind, Option.bind_some, hdrop, hline, List.drop_succ_cons,
      List.drop_zero, hcount]
    rfl
  · rw [hsplit, List.length_take]
    simp [closing]
    omega

/-- Where an import can be read, the statement there has its alias and a path at least as long. -/
theorem ReadsAs.exists_statementAt? {text word path : List Char} (h : ReadsAs text word path)
    (hfeed : '\n' ∉ text) :
    ∃ statement, statementAt? text = some statement ∧ statement.moduleAlias = word ∧
      path.length ≤ statement.path.length := by
  obtain ⟨behind, rfl⟩ := h.stands
  rw [written_append] at hfeed ⊢
  have hbehind : '\n' ∉ behind := by
    intro hm
    exact hfeed (by simp [hm])
  obtain ⟨longest, hlongest, hle⟩ := exists_relativePath? h.relative hbehind
  have hword : (word ++ (middle ++ (path ++ '\'' :: behind))).takeWhile isWord = word := by
    rw [List.takeWhile_append_of_pos h.isAlias.2]
    show word ++ (' ' :: _).takeWhile isWord = word
    rw [List.takeWhile_cons_of_neg (Bool.eq_false_iff.1 isWord_space), List.append_nil]
  have hdrop : (word ++ (middle ++ (path ++ '\'' :: behind))).drop word.length =
      middle ++ (path ++ '\'' :: behind) := List.drop_left
  have hne : word.isEmpty = false := by simpa using h.isAlias.1
  refine ⟨⟨word, longest, opening.length + word.length + middle.length + longest.length + 1⟩, ?_,
    rfl, hle⟩
  simp only [statementAt?, after?_self_append, Option.bind_eq_bind, Option.bind_some, hword, hdrop,
    hne, hlongest]
  rfl

theorem readsAs_of_statementAt? {text : List Char} {statement : Statement}
    (h : statementAt? text = some statement) :
    ReadsAs text statement.moduleAlias statement.path := by
  obtain ⟨hne, hword, hrelative, rest, htext, -⟩ := statementAt?_eq_some h
  exact ⟨⟨hne, hword⟩, hrelative, rest, (written_append _ _ _).trans htext.symm⟩

theorem importAt_of_statementAt? {text : List Char} {statement : Statement}
    (h : statementAt? text = some statement) (hfeed : '\n' ∉ text) :
    ImportAt text statement.moduleAlias statement.path := by
  refine ⟨readsAs_of_statementAt? h, fun longer hl => ?_⟩
  obtain ⟨other, ho, -, hle⟩ := hl.exists_statementAt? hfeed
  obtain rfl := Option.some.inj (h.symm.trans ho)
  exact hle

theorem ImportAt.exists_statementAt? {text word path : List Char} (h : ImportAt text word path)
    (hfeed : '\n' ∉ text) :
    ∃ statement, statementAt? text = some statement ∧ statement.moduleAlias = word ∧
      statement.path = path := by
  obtain ⟨statement, hs, rfl, hle⟩ := h.toReadsAs.exists_statementAt? hfeed
  have hat := readsAs_of_statementAt? hs
  have hlength : statement.path.length = path.length := Nat.le_antisymm (h.longest _ hat) hle
  -- two beginnings of a text that have one length are the same
  have hsame : written statement.moduleAlias statement.path =
      written statement.moduleAlias path := by
    refine (List.prefix_of_prefix_length_le hat.stands h.stands ?_).eq_of_length ?_
    · simp only [length_written, hlength, Nat.le_refl]
    · simp only [length_written, hlength]
  refine ⟨statement, hs, rfl, ?_⟩
  simpa [written] using hsame

/-! ## The first import of a line -/

/-- The statement of a line that starts furthest to the left. -/
def firstStatement? : List Char → Option Statement
  | [] => none
  | c :: rest =>
    match statementAt? (c :: rest) with
    | some statement => some statement
    | none => firstStatement? rest

theorem firstStatement?_eq_some_iff {line : List Char} {statement : Statement} :
    firstStatement? line = some statement ↔
      ∃ start, statementAt? (line.drop start) = some statement ∧
        ∀ earlier < start, statementAt? (line.drop earlier) = none := by
  induction line with
  | nil =>
    have hnone : statementAt? [] = none := rfl
    simp [firstStatement?, hnone]
  | cons c rest ih =>
    rw [firstStatement?]
    cases hs : statementAt? (c :: rest) with
    | some first =>
      constructor
      · intro h
        exact ⟨0, hs.trans h, fun earlier hlt => absurd hlt (Nat.not_lt_zero _)⟩
      · rintro ⟨start, hstart, hnone⟩
        cases start with
        | zero => exact hs.symm.trans hstart
        | succ start =>
          have hzero := hnone 0 (Nat.succ_pos _)
          cases hs.symm.trans hzero
    | none =>
      simp only [ih]
      constructor
      · rintro ⟨start, hstart, hnone⟩
        refine ⟨start + 1, hstart, fun earlier hlt => ?_⟩
        cases earlier with
        | zero => exact hs
        | succ earlier => exact hnone earlier (Nat.lt_of_succ_lt_succ hlt)
      · rintro ⟨start, hstart, hnone⟩
        cases start with
        | zero => cases hs.symm.trans hstart
        | succ start =>
          exact ⟨start, hstart, fun earlier hlt => hnone (earlier + 1) (Nat.succ_lt_succ hlt)⟩

theorem firstImport_iff {line word path : List Char} (hfeed : '\n' ∉ line) :
    (∃ statement, firstStatement? line = some statement ∧ statement.moduleAlias = word ∧
        statement.path = path) ↔ FirstImport line word path := by
  have hdrop (start : Nat) : '\n' ∉ line.drop start := fun hm => hfeed (List.mem_of_mem_drop hm)
  simp only [firstStatement?_eq_some_iff]
  constructor
  · rintro ⟨statement, ⟨start, hs, hnone⟩, rfl, rfl⟩
    refine ⟨start, importAt_of_statementAt? hs (hdrop start), fun earlier hlt word path hat => ?_⟩
    obtain ⟨other, ho, -⟩ := hat.exists_statementAt? (hdrop earlier)
    cases (hnone earlier hlt).symm.trans ho
  · rintro ⟨start, hat, hnone⟩
    obtain ⟨statement, hs, halias, hpath⟩ := hat.exists_statementAt? (hdrop start)
    refine ⟨statement, ⟨start, hs, fun earlier hlt => ?_⟩, halias, hpath⟩
    cases ho : statementAt? (line.drop earlier) with
    | none => rfl
    | some other => exact absurd (importAt_of_statementAt? ho (hdrop earlier)) (hnone earlier hlt _ _)

/-! ## Scanning line by line -/

/-- Behind what a statement captures, its line holds no closing. -/
theorem lastClosing?_behind {line : List Char} {statement : Statement}
    (h : statementAt? line = some statement) (hfeed : '\n' ∉ line) :
    lastClosing? (line.drop statement.length) = none := by
  obtain ⟨-, -, ⟨dots, inside, hdots, hne, hinside, hpath⟩, rest, htext, hlength⟩ :=
    statementAt?_eq_some h
  have hline : line = written statement.moduleAlias statement.path ++ rest :=
    htext.trans (written_append ..).symm
  have hbehind : line.drop statement.length = rest := by
    rw [hline]
    refine List.drop_left' ?_
    rw [length_written, hlength, length_opening, length_middle]
    omega
  rw [hbehind]
  refine Option.eq_none_iff_forall_ne_some.2 fun count hc => ?_
  obtain ⟨before, behind, rfl, -⟩ := lastClosing?_eq_some hc
  -- a path up to that closing would be longer than the one that was captured
  have hbefore : '\n' ∉ before := by
    intro hm
    exact hfeed (by simp [hline, hm])
  have hrelative : IsRelative (statement.path ++ '\'' :: (before ++ ".js".toList)) :=
    ⟨dots, inside ++ (".js".toList ++ '\'' :: before), hdots, by simp [hne],
      by simp [hinside, hbefore], by simp [hpath]⟩
  have hstands : written statement.moduleAlias (statement.path ++ '\'' :: (before ++ ".js".toList))
      <+: line := by
    refine ⟨behind, ?_⟩
    rw [hline]
    simp [written, closing]
  have hat := importAt_of_statementAt? h hfeed
  have hle := hat.longest _ ⟨hat.isAlias, hrelative, hstands⟩
  simp only [List.length_append, List.length_cons] at hle
  omega

/-- A text with an import in it has a closing. -/
theorem lastClosing?_ne_none {path : List Char} (hr : IsRelative path)
    (front word behind : List Char) :
    lastClosing? (front ++ (written word path ++ behind)) ≠ none := by
  obtain ⟨dots, inside, -, -, -, rfl⟩ := hr
  have hsplit : front ++ (written word (dots ++ '/' :: (inside ++ ".js".toList)) ++ behind) =
      front ++ (opening ++ (word ++ (middle ++ (dots ++ '/' :: inside)))) ++ (closing ++ behind) := by
    simp [written, closing]
  rw [hsplit]
  obtain ⟨count, hcount, -⟩ := exists_lastClosing?
    (front ++ (opening ++ (word ++ (middle ++ (dots ++ '/' :: inside))))) behind
  rw [hcount]
  exact Option.some_ne_none count

/-- Where there is no closing, no statement starts. -/
theorem statementAt?_of_no_closing {text : List Char} (h : lastClosing? text = none) :
    statementAt? text = none := by
  refine Option.eq_none_iff_forall_ne_some.2 fun statement hs => ?_
  have hread := readsAs_of_statementAt? hs
  obtain ⟨behind, rfl⟩ := hread.stands
  exact lastClosing?_ne_none hread.relative [] _ behind h

theorem lastClosing?_of_cons {c : Char} {rest : List Char} (h : lastClosing? (c :: rest) = none) :
    lastClosing? rest = none := by
  rw [lastClosing?] at h
  cases hr : lastClosing? rest with
  | none => rfl
  | some count => simp [hr] at h

variable {line rest : List Char}

/-- A line without a closing behind what is skipped has no further statement. -/
theorem statementsFrom_of_no_closing (hr : EndsLine rest) (hfeed : '\n' ∉ line) {skipped : Nat}
    (hle : skipped ≤ line.length) (h : lastClosing? (line.drop skipped) = none) :
    statementsFrom skipped (line ++ rest) = statementsFrom 0 rest := by
  induction line generalizing skipped with
  | nil =>
    obtain rfl : skipped = 0 := Nat.le_zero.1 hle
    rfl
  | cons c line ih =>
    have hfeed' : '\n' ∉ line := fun hm => hfeed (List.mem_cons_of_mem _ hm)
    cases skipped with
    | succ skipped => exact ih hfeed' (Nat.le_of_succ_le_succ hle) h
    | zero =>
      have hnone : statementAt? (c :: line ++ rest) = none :=
        (statementAt?_append hr hfeed).trans (statementAt?_of_no_closing h)
      rw [List.cons_append] at hnone ⊢
      rw [statementsFrom_of_none hnone]
      exact ih hfeed' (Nat.zero_le _) (lastClosing?_of_cons h)

/-- A line has the statement that starts furthest to the left, and no other. -/
theorem statementsFrom_line (hr : EndsLine rest) (hfeed : '\n' ∉ line) :
    statementsFrom 0 (line ++ rest) =
      (firstStatement? line).toList ++ statementsFrom 0 rest := by
  induction line with
  | nil => rfl
  | cons c line ih =>
    have hfeed' : '\n' ∉ line := fun hm => hfeed (List.mem_cons_of_mem _ hm)
    have hstart := statementAt?_append hr hfeed
    rw [List.cons_append] at hstart ⊢
    cases hs : statementAt? (c :: line) with
    | none =>
      rw [statementsFrom_of_none (hstart.trans hs), firstStatement?, hs]
      exact ih hfeed'
    | some statement =>
      have hle := length_le_of_statementAt? hs
      have hbehind := lastClosing?_behind hs hfeed
      rw [statementsFrom, hstart, hs, firstStatement?, hs]
      cases hlength : statement.length with
      | zero =>
        rw [hlength] at hbehind
        cases (statementAt?_of_no_closing hbehind).symm.trans hs
      | succ length =>
        rw [hlength] at hle hbehind
        have hskip := statementsFrom_of_no_closing hr hfeed' (Nat.le_of_succ_le_succ hle) hbehind
        simp only [hlength, Nat.add_sub_cancel, hskip]
        rfl

theorem statements_intercalate {lines : List (List Char)} (hne : lines ≠ [])
    (h : ∀ line ∈ lines, '\n' ∉ line) :
    statements (['\n'].intercalate lines) = lines.filterMap firstStatement? := by
  induction lines with
  | nil => exact absurd rfl hne
  | cons line rest ih =>
    have hfeed := h line (List.mem_cons_self ..)
    have hfilter : (line :: rest).filterMap firstStatement? =
        (firstStatement? line).toList ++ rest.filterMap firstStatement? := by
      cases hs : firstStatement? line <;> simp [hs]
    cases rest with
    | nil =>
      have hends : EndsLine [] := fun c hc => by cases hc
      have hline := statementsFrom_line hends hfeed
      rw [List.append_nil] at hline
      rw [List.intercalate_singleton, hfilter]
      exact hline
    | cons next others =>
      have hrest := ih (List.cons_ne_nil _ _) fun other ho => h other (List.mem_cons_of_mem _ ho)
      have hends : EndsLine ('\n' :: ['\n'].intercalate (next :: others)) := by
        intro c hc
        simp at hc
      rw [List.intercalate_cons_cons, List.append_assoc, hfilter, ← hrest]
      exact statementsFrom_line hends hfeed

/-- The statements of a text are those of its lines. -/
theorem statements_eq_lines (text : List Char) :
    statements text = (text.splitOn '\n').filterMap firstStatement? := by
  have h := statements_intercalate (List.splitOn_ne_nil '\n' text)
    (Path.not_mem_of_mem_splitOn '\n' text)
  rwa [List.intercalate_splitOn] at h

/-! ## The aliases of a buffer -/

/-- The import of a line that starts furthest to the left: its alias and its path. -/
def firstImport? (line : List Char) : Option (List Char × List Char) :=
  (firstStatement? line).map fun statement => (statement.moduleAlias, statement.path)

/-- The alias that an import declares, and the module that it names from a directory. -/
def declaration (directory : Path) (found : List Char × List Char) : String × Path :=
  (String.ofList found.1, (directory.join ⟨String.ofList found.2⟩).normalize)

/-- The lines of the window, the last of which the window may cut. -/
def windowLines (lookahead : Nat) (text : String) : List (List Char) :=
  (text.toList.take lookahead).splitOn '\n'

/-- What the lines of the window declare, one after the other. -/
def declarations (lookahead : Nat) (text : String) (file : Path) : List (String × Path) :=
  ((windowLines lookahead text).filterMap firstImport?).map (declaration (directoryOf file))

theorem firstImport?_eq_some_iff {line word path : List Char} (hfeed : '\n' ∉ line) :
    firstImport? line = some (word, path) ↔ FirstImport line word path := by
  rw [← firstImport_iff hfeed, firstImport?]
  simp

theorem ofBuffer_eq_declarations (lookahead : Nat) (text : String) (file : Path) :
    ofBuffer lookahead ⟨text, some file⟩ = .ofList (declarations lookahead text file) := by
  have hfound : (windowLines lookahead text).filterMap firstImport? =
      ((windowLines lookahead text).filterMap firstStatement?).map
        fun statement => (statement.moduleAlias, statement.path) := by
    rw [List.map_filterMap]
    rfl
  rw [declarations, hfound, List.map_map]
  simp only [ofBuffer, Buffer.toList_slice_zero, statements_eq_lines]
  rfl

/-- The scan reads line by line. In each line of the window the import counts that starts furthest to
the left, with the longest path that a quote follows, and no other; so a line declares one alias at
most. The aliases keep the order in which they are first declared, and each of them stands for the
path it was last declared with, read from the directory of the file. -/
theorem scan_reads_lines (lookahead : Nat) (text : String) (file : Path) :
    let lines := windowLines lookahead text
    let declared := declarations lookahead text file
    let aliases := ofBuffer lookahead ⟨text, some file⟩
    (∀ line ∈ lines, ∀ word path,
        firstImport? line = some (word, path) ↔ FirstImport line word path) ∧
      aliases = .ofList declared ∧
      aliases.keys = (declared.map Prod.fst).eraseDups ∧
      (∀ word, aliases.get? word = ((declared.filter (·.1 = word)).getLast?).map Prod.snd) ∧
      declared.length ≤ lines.length := by
  intro lines declared aliases
  have haliases : aliases = .ofList declared := ofBuffer_eq_declarations lookahead text file
  refine ⟨fun line hl word path => ?_, haliases, ?_, fun word => ?_, ?_⟩
  · exact firstImport?_eq_some_iff (Path.not_mem_of_mem_splitOn '\n' _ line hl)
  · rw [haliases, OrderedMap.keys_ofList]
  · rw [haliases, OrderedMap.get?_ofList]
  · simp only [declared, declarations, List.length_map]
    exact List.length_filterMap_le ..

/-- Two imports in one line, a line with half an import, and a second declaration of an alias. -/
def threeImports : String :=
  "import * as A from './a.js'; import * as B from './b.js'\n.js'\nimport * as A from '../c.js'"

/-- The first line declares one alias with a path that runs on to its end; the last one counts. -/
theorem scan_of_threeImports :
    let aliases := ofBuffer 500 ⟨threeImports, some ⟨"/m/main.js"⟩⟩
    FirstImport "import * as A from './a.js'; import * as B from './b.js'".toList
        ['A'] "./a.js'; import * as B from './b.js".toList ∧
      aliases.keys = ["A"] ∧ aliases.get? "A" = some ⟨"/c.js"⟩ := by
  intro aliases
  obtain ⟨hfirst, -, hkeys, hget, -⟩ := scan_reads_lines 500 threeImports ⟨"/m/main.js"⟩
  have hdeclared : declarations 500 threeImports ⟨"/m/main.js"⟩ =
      [("A", ⟨"/m/a.js'; import * as B from './b.js"⟩), ("A", ⟨"/c.js"⟩)] := by
    decide +kernel
  rw [hdeclared] at hkeys hget
  exact ⟨(hfirst _ (by decide +kernel) _ _).1 (by decide +kernel), hkeys.trans (by decide),
    (hget "A").trans (by decide)⟩

end EsmCompletion.Imports
