import EsmCompletion.Proofs.Imports.Aliases
import EsmCompletion.Proofs.Imports.Lines
import EsmCompletion.Proofs.Text.Pieces
import Mathlib.Data.List.Induction

/-! # What an import declares

An import whose path holds no quote declares its alias for the module at that path, unless the alias
is declared again behind it. The scan agrees as long as no path can be read over a quote: it takes the
path of a line up to the last quote that may end one, and then passes over every import in between. -/

namespace EsmCompletion.Imports

open Unicode

/-! ## Imports do not overlap -/

/-- What an import has in front of its first quote. -/
def lead (word : List Char) : List Char := opening ++ (word ++ " from ".toList)

theorem written_eq_lead (word path behind : List Char) :
    written word path ++ behind = lead word ++ '\'' :: (path ++ '\'' :: behind) := by
  have hmiddle : middle = " from ".toList ++ ['\''] := by decide
  simp [written, lead, hmiddle]

theorem IsAlias.quote_not_mem_lead {word : List Char} (h : IsAlias word) : '\'' ∉ lead word := by
  have hopening : '\'' ∉ opening := by decide
  have hword : '\'' ∉ word := by
    intro hm
    exact absurd (h.2 _ hm) (by decide)
  simp [lead, hopening, hword]

/-- A word behind a space is told from its end. -/
theorem word_inj {before before' word word' : List Char} (h : ∀ c ∈ word, isWord c = true)
    (h' : ∀ c ∈ word', isWord c = true)
    (heq : before ++ ' ' :: word = before' ++ ' ' :: word') : before = before' ∧ word = word' := by
  have hreverse := congrArg List.reverse heq
  simp only [List.reverse_append, List.reverse_cons, List.append_assoc, List.singleton_append]
    at hreverse
  have hspace {other : List Char} (ho : ∀ c ∈ other, isWord c = true) : ' ' ∉ other.reverse := by
    intro hm
    exact Bool.eq_false_iff.1 isWord_space (ho _ (List.mem_reverse.1 hm))
  obtain ⟨hword, hbefore⟩ := eq_of_append_cons_eq (hspace h) (hspace h') hreverse
  exact ⟨List.reverse_inj.1 hbefore, List.reverse_inj.1 hword⟩

theorem IsAlias.eq_of_lead {word other front : List Char} (h : IsAlias word) (ho : IsAlias other)
    (heq : lead word = front ++ lead other) : front = [] ∧ word = other := by
  have hopening : opening = "import * as".toList ++ [' '] := by decide
  have hsplit (word : List Char) :
      lead word = "import * as".toList ++ ' ' :: word ++ " from ".toList := by
    simp only [lead, hopening, List.append_assoc, List.cons_append, List.nil_append]
  rw [hsplit, hsplit, ← List.append_assoc, List.append_left_inj, ← List.append_assoc] at heq
  obtain ⟨hfront, hword⟩ := word_inj h.2 ho.2 heq
  refine ⟨?_, hword⟩
  simpa using congrArg List.length hfront

/-- A relative path does not end as the front of an import does. -/
theorem IsRelative.ne_append_lead {path front word : List Char} (h : IsRelative path) :
    path ≠ front ++ lead word := by
  obtain ⟨dots, inside, -, -, -, rfl⟩ := h
  intro he
  have hlast := congrArg List.getLast? he
  simp [lead, List.getLast?_append, List.getLast?_cons] at hlast

/-- Two imports whose paths hold no quote are the same, unless the second stands behind the first, and so
a closing does. -/
theorem eq_of_no_closing {word path behind front other path' rest : List Char} (ha : IsAlias word)
    (hr : IsRelative path) (hq : '\'' ∉ path) (ho : IsAlias other) (hr' : IsRelative path')
    (hq' : '\'' ∉ path') (hc : lastClosing? behind = none)
    (h : written word path ++ behind = front ++ (written other path' ++ rest)) :
    word = other ∧ path = path' := by
  rw [written_eq_lead, written_eq_lead] at h
  by_cases hfront : '\'' ∈ front
  · -- the second begins behind the first quote: in the path, or behind the second quote
    obtain ⟨before, between, rfl, hbefore⟩ := List.eq_append_cons_of_mem hfront
    rw [List.append_assoc, List.cons_append] at h
    obtain ⟨-, h⟩ := eq_of_append_cons_eq ha.quote_not_mem_lead hbefore h
    by_cases hbetween : '\'' ∈ between
    · obtain ⟨inside, further, rfl, hinside⟩ := List.eq_append_cons_of_mem hbetween
      rw [List.append_assoc, List.cons_append] at h
      obtain ⟨-, hbehind⟩ := eq_of_append_cons_eq hq hinside h
      rw [hbehind, ← written_eq_lead] at hc
      exact absurd hc (lastClosing?_ne_none hr' further other rest)
    · rw [← List.append_assoc] at h
      have hlead : '\'' ∉ between ++ lead other := by
        simp [hbetween, ho.quote_not_mem_lead]
      exact absurd (eq_of_append_cons_eq hq hlead h).1 hr.ne_append_lead
  · rw [← List.append_assoc] at h
    have hlead : '\'' ∉ front ++ lead other := by
      simp [hfront, ho.quote_not_mem_lead]
    obtain ⟨heq, h⟩ := eq_of_append_cons_eq ha.quote_not_mem_lead hlead h
    exact ⟨(ha.eq_of_lead ho heq).2, (eq_of_append_cons_eq hq hq' h).1⟩

/-! ## The line of an import -/

theorem exists_firstStatement? {line : List Char} {start : Nat} {statement : Statement}
    (h : statementAt? (line.drop start) = some statement) :
    ∃ first place, place ≤ start ∧ firstStatement? line = some first ∧
      statementAt? (line.drop place) = some first := by
  induction line generalizing start with
  | nil =>
    rw [List.drop_nil] at h
    cases h
  | cons c rest ih =>
    cases hs : statementAt? (c :: rest) with
    | some first => exact ⟨first, 0, Nat.zero_le _, by rw [firstStatement?, hs], hs⟩
    | none =>
      cases start with
      | zero => cases hs.symm.trans h
      | succ start =>
        obtain ⟨first, place, hle, hfirst, hplace⟩ := ih h
        exact ⟨first, place + 1, Nat.succ_le_succ hle, by rw [firstStatement?, hs]; exact hfirst,
          hplace⟩

/-- The statements in front of the line that a text ends in do not depend on what follows. -/
theorem exists_statements_before (before : List Char) :
    ∃ front line, before = front ++ line ∧ '\n' ∉ line ∧
      ∃ earlier, ∀ text, statements (before ++ text) = earlier ++ statements (line ++ text) := by
  induction before using List.reverseRecOn with
  | nil => exact ⟨[], [], rfl, List.not_mem_nil, [], fun text => rfl⟩
  | append_singleton before c ih =>
    by_cases hc : c = '\n'
    · subst hc
      refine ⟨before ++ ['\n'], [], by simp, List.not_mem_nil, statements before, fun text => ?_⟩
      rw [List.append_assoc, List.singleton_append, statements_eq_lines, statements_eq_lines,
        List.splitOn_append_cons_self, List.filterMap_append, List.nil_append, statements_eq_lines]
    · obtain ⟨front, line, rfl, hline, earlier, hearlier⟩ := ih
      refine ⟨front, line ++ [c], by simp, by simp [hline, Ne.symm hc], earlier, fun text => ?_⟩
      rw [List.append_assoc, hearlier, List.append_assoc]

/-- The lines in front of a place, the line it is in, and the lines behind it. -/
theorem exists_line_at (text : List Char) (start : Nat) :
    ∃ front line earlier, text.take start = front ++ line ∧
      '\n' ∉ line ++ (text.drop start).takeWhile (· ≠ '\n') ∧
      statements text = earlier ++
        ((firstStatement? (line ++ (text.drop start).takeWhile (· ≠ '\n'))).toList ++
          statements ((text.drop start).dropWhile (· ≠ '\n'))) := by
  obtain ⟨front, line, hbefore, hline, earlier, hearlier⟩ :=
    exists_statements_before (text.take start)
  have hfeed : '\n' ∉ line ++ (text.drop start).takeWhile (· ≠ '\n') := fun hm =>
    (List.mem_append.1 hm).elim hline (lineFeed_not_mem_line _)
  refine ⟨front, line, earlier, hbefore, hfeed, ?_⟩
  have hlines := statementsFrom_line (endsLine_dropWhile (text.drop start)) hfeed
  rw [List.append_assoc, List.takeWhile_append_dropWhile] at hlines
  calc statements text
      _ = earlier ++ statements (line ++ text.drop start) := by
        rw [← hearlier, List.take_append_drop]
      _ = _ := congrArg (earlier ++ ·) hlines

theorem ReadsAs.append {text word path : List Char} (h : ReadsAs text word path)
    (rest : List Char) : ReadsAs (text ++ rest) word path :=
  ⟨h.isAlias, h.relative, h.stands.trans (List.prefix_append text rest)⟩

theorem ReadsAs.lineFeed_not_mem {text word path : List Char} (h : ReadsAs text word path) :
    '\n' ∉ written word path := by
  obtain ⟨dots, inside, hdots, -, hinside, rfl⟩ := h.relative
  have hopening : '\n' ∉ opening := by decide
  have hmiddle : '\n' ∉ middle := by decide
  have hword : '\n' ∉ word := by
    intro hm
    exact Bool.eq_false_iff.1 isWord_lineFeed (h.isAlias.2 _ hm)
  rcases hdots with rfl | rfl <;> simp [written, hopening, hmiddle, hword, hinside]

theorem drop_length_takeWhile {α : Type} (p : α → Bool) (text : List α) :
    text.drop (text.takeWhile p).length = text.dropWhile p := by
  calc text.drop (text.takeWhile p).length
      _ = (text.takeWhile p ++ text.dropWhile p).drop (text.takeWhile p).length := by
        rw [List.takeWhile_append_dropWhile]
      _ = text.dropWhile p := List.drop_left

/-- An import is read from its line. -/
theorem ReadsAs.takeWhile {text word path : List Char} (h : ReadsAs text word path) :
    ReadsAs (text.takeWhile (· ≠ '\n')) word path := by
  refine ⟨h.isAlias, h.relative, ?_⟩
  obtain ⟨behind, rfl⟩ := h.stands
  rw [List.takeWhile_append_of_pos]
  · exact List.prefix_append _ _
  · intro c hc
    exact decide_eq_true fun he => h.lineFeed_not_mem (he ▸ hc)

/-- What is read in the line of a place is read in the text. -/
theorem ReadsAs.of_line {text front line word path : List Char} {start place : Nat}
    (hbefore : text.take start = front ++ line) (hle : place ≤ line.length)
    (h : ReadsAs (line.drop place ++ (text.drop start).takeWhile (· ≠ '\n')) word path) :
    ReadsAs (text.drop (front.length + place)) word path := by
  have hdrop : text.drop (front.length + place) =
      (line.drop place ++ (text.drop start).takeWhile (· ≠ '\n')) ++
        (text.drop start).dropWhile (· ≠ '\n') := by
    rw [List.append_assoc, List.takeWhile_append_dropWhile]
    calc text.drop (front.length + place)
        _ = (front ++ (line ++ text.drop start)).drop (front.length + place) := by
          rw [← List.append_assoc, ← hbefore, List.take_append_drop]
        _ = (line ++ text.drop start).drop place := by
          rw [← List.drop_drop, List.drop_left]
        _ = line.drop place ++ text.drop start := List.drop_append_of_le_length hle
  rw [hdrop]
  exact h.append _

theorem ReadsAs.lt_length {text word path : List Char} {start : Nat}
    (h : ReadsAs (text.drop start) word path) : start < text.length := by
  have hle := h.stands.length_le
  rw [length_written, List.length_drop] at hle
  omega

/-- What is read at a place is the beginning of what the statement there captures. -/
theorem ReadsAs.exists_prefix {text word path : List Char} (h : ReadsAs text word path) :
    ∃ statement, statementAt? (text.takeWhile (· ≠ '\n')) = some statement ∧
      statement.moduleAlias = word ∧ path <+: statement.path := by
  have hline := h.takeWhile
  obtain ⟨statement, hs, rfl, hle⟩ := hline.exists_statementAt? (lineFeed_not_mem_line text)
  have hlength : (written statement.moduleAlias path).length ≤
      (written statement.moduleAlias statement.path).length := by
    simpa only [length_written, Nat.add_le_add_iff_right, Nat.add_le_add_iff_left] using hle
  have hbegins := List.prefix_of_prefix_length_le hline.stands
    (readsAs_of_statementAt? hs).stands hlength
  simp only [written, List.prefix_append_right_inj] at hbegins
  exact ⟨statement, hs, rfl, List.prefix_of_prefix_length_le
    ((List.prefix_append path _).trans hbegins) (List.prefix_append statement.path _) hle⟩

/-- The first import of a line is the one at a place, if that one holds no quote and no path can be
read over a quote up to there. -/
theorem firstStatement?_of_readsAs {line behind word path : List Char}
    (hfeed : '\n' ∉ line ++ behind) (h : ReadsAs behind word path) (hq : '\'' ∉ path)
    (hquotes : ∀ place ≤ line.length, ∀ other longer,
      ReadsAs (line.drop place ++ behind) other longer → '\'' ∈ longer →
        place + (written other longer).length ≤ line.length) :
    ∃ statement, firstStatement? (line ++ behind) = some statement ∧
      statement.moduleAlias = word ∧ statement.path = path := by
  have hdrop {place : Nat} (hle : place ≤ line.length) :
      (line ++ behind).drop place = line.drop place ++ behind := List.drop_append_of_le_length hle
  obtain ⟨statement, hs, -⟩ := h.exists_statementAt? fun hm => hfeed (List.mem_append_right _ hm)
  replace hs : statementAt? ((line ++ behind).drop line.length) = some statement := by
    rwa [List.drop_left]
  obtain ⟨first, place, hle, hfirst, hplace⟩ := exists_firstStatement? hs
  refine ⟨first, hfirst, ?_⟩
  have hclosing := lastClosing?_behind hplace fun hm => hfeed (List.mem_of_mem_drop hm)
  have hread := readsAs_of_statementAt? hplace
  obtain ⟨-, -, -, -, -, hlength⟩ := statementAt?_eq_some hplace
  replace hlength : first.length = (written first.moduleAlias first.path).length := by
    rw [hlength, length_written, length_opening, length_middle]
    omega
  rw [hdrop hle] at hread hclosing
  rw [hlength] at hclosing
  obtain ⟨beyond, hbeyond⟩ := h.stands
  by_cases hquote : '\'' ∈ first.path
  · -- then it ends in front of the place, and a closing follows
    have hend := hquotes place hle _ _ hread hquote
    have hbefore : (written first.moduleAlias first.path).length ≤ (line.drop place).length := by
      rw [List.length_drop]
      omega
    rw [List.drop_append_of_le_length hbefore, ← hbeyond] at hclosing
    exact absurd hclosing (lastClosing?_ne_none h.relative _ _ _)
  · obtain ⟨rest, hrest⟩ := hread.stands
    rw [← hrest, List.drop_left] at hclosing
    rw [← hbeyond] at hrest
    exact eq_of_no_closing hread.isAlias hread.relative hquote h.isAlias h.relative hq hclosing hrest

/-! ## The last declaration of an alias -/

/-- An import in a text whose path holds no quote. -/
structure Declares (text : List Char) (start : Nat) (word path : List Char) : Prop where
  reads : ReadsAs (text.drop start) word path
  unquoted : '\'' ∉ path

section

variable {window word path : List Char} {start : Nat}
  (hlast : ∀ later > start, ∀ other, ¬ Declares window later word other)
  (hquotes : ∀ place other longer, ReadsAs (window.drop place) other longer → '\'' ∈ longer →
    place + (written other longer).length ≤ start ∨ start < place ∧ other ≠ word)

include hlast hquotes

/-- The statements behind the line of the last import that declares an alias bind other aliases. -/
theorem moduleAlias_ne_of_behind {beyond : Nat} (hb : start < beyond) {statement : Statement}
    (hs : statement ∈ statements (window.drop beyond)) : statement.moduleAlias ≠ word := by
  rintro rfl
  obtain ⟨place, hplace⟩ := statementAt?_of_mem_statementsFrom hs
  rw [List.drop_drop] at hplace
  have hread := readsAs_of_statementAt? hplace
  by_cases hquote : '\'' ∈ statement.path
  · rcases hquotes _ _ _ hread hquote with hend | ⟨-, hne⟩
    · omega
    · exact hne rfl
  · exact hlast _ (Nat.lt_add_right place hb) _ ⟨hread, hquote⟩

/-- The last statement that binds an alias is the last import that declares it, if no path can be read
over a quote up to there, and none for that alias behind it. -/
theorem getLast?_of_declares (h : Declares window start word path) :
    ∃ statement, ((statements window).filter (·.moduleAlias = word)).getLast? = some statement ∧
      statement.path = path := by
  obtain ⟨front, line, earlier, hbefore, hfeed, hstatements⟩ := exists_line_at window start
  have hstart : front.length + line.length = start := by
    have hlt := h.reads.lt_length
    rw [← List.length_append, ← hbefore, List.length_take]
    omega
  -- the statement of this line
  have hhere := h.reads.takeWhile
  have hupto : ∀ place ≤ line.length, ∀ other longer,
      ReadsAs (line.drop place ++ (window.drop start).takeWhile (· ≠ '\n')) other longer →
        '\'' ∈ longer → place + (written other longer).length ≤ line.length := by
    intro place hle other longer hread hquote
    have hend := hquotes _ other longer (.of_line hbefore hle hread) hquote
    omega
  obtain ⟨statement, hfirst, halias, hpath⟩ :=
    firstStatement?_of_readsAs hfeed hhere h.unquoted hupto
  -- the statements of the lines behind it
  have hbehind : (statements ((window.drop start).dropWhile (· ≠ '\n'))).filter
      (·.moduleAlias = word) = [] := by
    have hlength := hhere.stands.length_le
    have hdrop : (window.drop start).dropWhile (· ≠ '\n') =
        window.drop (start + ((window.drop start).takeWhile (· ≠ '\n')).length) := by
      rw [← List.drop_drop, drop_length_takeWhile]
    rw [length_written] at hlength
    rw [List.filter_eq_nil_iff, hdrop]
    intro other ho
    simpa using moduleAlias_ne_of_behind hlast hquotes (by omega) ho
  refine ⟨statement, ?_, hpath⟩
  rw [hstatements, hfirst, List.filter_append, List.filter_append, hbehind, List.append_nil]
  simp [halias]

end

/-- The last import that declares an alias decides what it stands for, if its path holds no quote, no
path can be read over a quote up to there, and none for that alias behind it. -/
theorem alias_of_declares {lookahead : Nat} {text : String} {word path : List Char} {start : Nat}
    (h : Declares (text.toList.take lookahead) start word path)
    (hlast : ∀ later > start, ∀ other, ¬ Declares (text.toList.take lookahead) later word other)
    (hquotes : ∀ place other longer,
      ReadsAs ((text.toList.take lookahead).drop place) other longer → '\'' ∈ longer →
        place + (written other longer).length ≤ start ∨ start < place ∧ other ≠ word)
    (file : Path) :
    (ofBuffer lookahead ⟨text, some file⟩).get? (String.ofList word) =
      some ((directoryOf file).join ⟨String.ofList path⟩).normalize := by
  obtain ⟨statement, hs, rfl⟩ := getLast?_of_declares hlast hquotes h
  have hcaptured : lastStatement? lookahead ⟨text, some file⟩ (String.ofList word) =
      some statement := by
    simp only [lastStatement?, Buffer.toList_slice_zero, String.ofList_inj]
    exact hs
  rw [get?_ofBuffer rfl, captured?, hcaptured]
  rfl

/-- An import behind another one, in a line of its own. -/
theorem alias_of_secondLine :
    let text := "import * as A from './a.js';\nimport * as B from '../b.js' // as A\n"
    (ofBuffer 500 ⟨text, some ⟨"/m/main.js"⟩⟩).get? "B" = some ⟨"/b.js"⟩ := by
  intro text
  let window := text.toList.take 500
  have hlength : window.length = 66 := by decide +kernel
  have hall : ∀ place < 66, ∀ statement ∈
      statementAt? ((window.drop place).takeWhile (· ≠ '\n')),
        '\'' ∉ statement.path ∧ place ≤ 29 := by
    decide +kernel
  have hreads {place : Nat} {word path : List Char} (h : ReadsAs (window.drop place) word path) :
      '\'' ∉ path ∧ place ≤ 29 := by
    obtain ⟨statement, hs, -, hbegins⟩ := h.exists_prefix
    obtain ⟨hquote, hplace⟩ := hall place (hlength ▸ h.lt_length) statement hs
    exact ⟨fun hm => hquote (hbegins.subset hm), hplace⟩
  have hstatement : statementAt? (window.drop 29) = some ⟨['B'], "../b.js".toList, 28⟩ := by
    decide +kernel
  have h : Declares window 29 ['B'] "../b.js".toList :=
    ⟨readsAs_of_statementAt? hstatement, by decide +kernel⟩
  have hget := alias_of_declares h
    (fun later hl other hd => absurd (hreads hd.reads).2 (Nat.not_le.2 hl))
    (fun place other longer hr hq => absurd hq (hreads hr).1) ⟨"/m/main.js"⟩
  exact hget.trans (by decide +kernel)

/-- The path of an import runs on to a quote further behind in its line, if that one ends a script. -/
theorem path_runs_over_quote :
    let text := "import * as A from './a.js'; load('b.js')"
    let window := text.toList.take 500
    Declares window 0 ['A'] "./a.js".toList ∧
      (∀ later > 0, ∀ other, ¬ Declares window later ['A'] other) ∧
      (ofBuffer 500 ⟨text, some ⟨"/m/main.js"⟩⟩).get? "A" = some ⟨"/m/a.js'; load('b.js"⟩ := by
  intro text window
  have hlength : window.length = 41 := by decide +kernel
  have hall : ∀ place < 41, place = 0 ∨
      statementAt? ((window.drop place).takeWhile (· ≠ '\n')) = none := by
    decide +kernel
  have halias : IsAlias ['A'] := ⟨by decide, List.forall_mem_singleton.2 (by decide)⟩
  have hrelative : IsRelative "./a.js".toList :=
    ⟨['.'], ['a'], .inl rfl, by decide, by decide, by decide +kernel⟩
  have hstands : written ['A'] "./a.js".toList <+: window.drop 0 := by decide +kernel
  refine ⟨⟨⟨halias, hrelative, hstands⟩, by decide +kernel⟩, ?_, by decide +kernel⟩
  intro later hl other hd
  obtain ⟨statement, hs, -⟩ := hd.reads.exists_prefix
  rcases hall later (hlength ▸ hd.reads.lt_length) with rfl | hnone
  · exact absurd hl (Nat.lt_irrefl 0)
  · cases hnone.symm.trans hs

end EsmCompletion.Imports
