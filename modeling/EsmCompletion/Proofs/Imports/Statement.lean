import EsmCompletion.Imports
import Mathlib.Data.List.TakeWhile

/-! # A statement stands in its line

What a statement captures is a relative path that ends in `.js`, and everything up to the quote
behind it stands in the text. No line feed does, so only the line at the start of a text decides
whether a statement starts there; and as nothing that is looked for holds a carriage return, those
at the end of the line decide nothing either. -/

namespace EsmCompletion.Imports

open Unicode

/-! ## What is captured -/

theorem lastClosing?_eq_some {text : List Char} {count : Nat}
    (h : lastClosing? text = some count) :
    ∃ before behind, text = before ++ (closing ++ behind) ∧ before.length = count := by
  induction text generalizing count with
  | nil => cases h
  | cons c rest ih =>
    unfold lastClosing? at h
    split at h
    · rename_i inner hr
      cases h
      obtain ⟨before, behind, rfl, rfl⟩ := ih hr
      exact ⟨c :: before, behind, rfl, rfl⟩
    · split at h
      · rename_i hp
        cases h
        obtain ⟨behind, hb⟩ := List.isPrefixOf_iff_prefix.1 hp
        exact ⟨[], behind, hb.symm, rfl⟩
      · cases h

theorem leadLength?_eq_some {text : List Char} {lead : Nat} (h : leadLength? text = some lead) :
    ∃ dots rest, (dots = ['.'] ∨ dots = ['.', '.']) ∧ text = dots ++ '/' :: rest ∧
      lead = dots.length + 1 := by
  unfold leadLength? at h
  split at h
  · cases h
    exact ⟨['.'], _, .inl rfl, rfl, rfl⟩
  · cases h
    exact ⟨['.', '.'], _, .inr rfl, rfl, rfl⟩
  · cases h

/-- The relative paths that statements capture. -/
def IsRelative (path : List Char) : Prop :=
  ∃ dots inside, (dots = ['.'] ∨ dots = ['.', '.']) ∧ inside ≠ [] ∧ '\n' ∉ inside ∧
    path = dots ++ '/' :: (inside ++ ".js".toList)

theorem IsRelative.lineFeed_not_mem {path : List Char} (h : IsRelative path) : '\n' ∉ path := by
  obtain ⟨dots, inside, hdots, -, hfeed, rfl⟩ := h
  rcases hdots with rfl | rfl <;> simp [hfeed]

theorem lineFeed_not_mem_line (text : List Char) : '\n' ∉ text.takeWhile (· ≠ '\n') := by
  intro hm
  simpa using List.mem_takeWhile_imp hm

/-- The last closing in the first line of a text, with one character at least before it. -/
theorem exists_of_lastClosing?_line {text : List Char} {count : Nat}
    (h : lastClosing? ((text.takeWhile (· ≠ '\n')).drop 1) = some count) :
    ∃ inside behind, inside.length = count + 1 ∧ '\n' ∉ inside ∧
      text = inside ++ (closing ++ behind) := by
  obtain ⟨before, behind, hline, rfl⟩ := lastClosing?_eq_some h
  have hfeed := lineFeed_not_mem_line text
  have htext := List.takeWhile_append_dropWhile (p := (· ≠ '\n')) (l := text)
  revert hline hfeed htext
  generalize text.takeWhile (· ≠ '\n') = line
  intro hline hfeed htext
  cases line with
  | nil => cases before <;> cases hline
  | cons c line =>
    obtain rfl : line = before ++ (closing ++ behind) := hline
    refine ⟨c :: before, behind ++ text.dropWhile (· ≠ '\n'), rfl, fun hm => hfeed ?_, ?_⟩
    · exact List.mem_append_left (closing ++ behind) hm
    · simpa using htext.symm

theorem relativePath?_eq_some {text path : List Char} (h : relativePath? text = some path) :
    IsRelative path ∧ ∃ rest, text = path ++ '\'' :: rest := by
  unfold relativePath? at h
  obtain ⟨lead, hlead, h⟩ := Option.bind_eq_some_iff.1 h
  obtain ⟨count, hcount, h⟩ := Option.bind_eq_some_iff.1 h
  obtain rfl := Option.some.inj h
  obtain ⟨dots, rest, hdots, rfl, rfl⟩ := leadLength?_eq_some hlead
  have hdrop : (dots ++ '/' :: rest).drop (dots.length + 1) = rest := by
    simp [← List.drop_drop]
  rw [hdrop] at hcount
  obtain ⟨inside, behind, hlength, hfeed, rfl⟩ := exists_of_lastClosing?_line hcount
  have hsplit : dots ++ '/' :: (inside ++ (closing ++ behind)) =
      (dots ++ '/' :: (inside ++ ".js".toList)) ++ '\'' :: behind := by
    simp [closing]
  have htake : (dots ++ '/' :: (inside ++ (closing ++ behind))).take
      (dots.length + 1 + count + 4) = dots ++ '/' :: (inside ++ ".js".toList) := by
    rw [hsplit]
    refine List.take_left' ?_
    simp [hlength]
    omega
  have hne : inside ≠ [] := by
    rintro rfl
    cases hlength
  rw [htake]
  exact ⟨⟨dots, inside, hdots, hne, hfeed, rfl⟩, behind, hsplit⟩

theorem after?_eq_some {beginning text rest : List Char} (h : after? beginning text = some rest) :
    text = beginning ++ rest := by
  unfold after? at h
  split at h
  · rename_i hp
    obtain ⟨behind, rfl⟩ := List.isPrefixOf_iff_prefix.1 hp
    rw [List.drop_left] at h
    rw [Option.some.inj h]
  · cases h

/-- What a statement consists of. -/
theorem statementAt?_eq_some {text : List Char} {statement : Statement}
    (h : statementAt? text = some statement) :
    statement.moduleAlias ≠ [] ∧ (∀ c ∈ statement.moduleAlias, isWord c = true) ∧
      IsRelative statement.path ∧
      ∃ rest, text = opening ++
          (statement.moduleAlias ++ (middle ++ (statement.path ++ '\'' :: rest))) ∧
        statement.length = opening.length + statement.moduleAlias.length + middle.length +
          statement.path.length + 1 := by
  unfold statementAt? at h
  obtain ⟨behind, hopening, h⟩ := Option.bind_eq_some_iff.1 h
  simp only at h
  split at h
  · cases h
  · rename_i hne
    obtain ⟨located, hmiddle, h⟩ := Option.bind_eq_some_iff.1 h
    obtain ⟨path, hpath, h⟩ := Option.bind_eq_some_iff.1 h
    obtain rfl := Option.some.inj h
    obtain ⟨hrelative, rest, hrest⟩ := relativePath?_eq_some hpath
    refine ⟨by simpa using hne, List.all_eq_true.1 List.all_takeWhile, hrelative, rest, ?_, rfl⟩
    have hword := List.prefix_iff_eq_append.1 (List.takeWhile_prefix (l := behind) isWord)
    rw [after?_eq_some hopening, ← hrest, ← after?_eq_some hmiddle, hword]

theorem length_le_of_statementAt? {text : List Char} {statement : Statement}
    (h : statementAt? text = some statement) : statement.length ≤ text.length := by
  obtain ⟨-, -, -, rest, rfl, hlength⟩ := statementAt?_eq_some h
  simp only [hlength, List.length_append, List.length_cons]
  omega

/-! ## The line of a statement -/

/-- What may follow a line: nothing but carriage returns, up to the next line feed. -/
def EndsLine (rest : List Char) : Prop := ∀ c ∈ rest.takeWhile (· ≠ '\n'), c = '\r'

theorem EndsLine.head {c : Char} {rest : List Char} (h : EndsLine (c :: rest)) :
    c = '\n' ∨ c = '\r' := by
  by_cases hc : c = '\n'
  · exact .inl hc
  · exact .inr (h c (by simp [hc]))

theorem after?_cons (b c : Char) (beginning text : List Char) :
    after? (b :: beginning) (c :: text) = if b = c then after? beginning text else none := by
  by_cases h : b = c <;> simp [after?, h]

theorem takeWhile_dropWhile_line (text : List Char) :
    (text.dropWhile (· ≠ '\n')).takeWhile (· ≠ '\n') = [] := by
  induction text with
  | nil => rfl
  | cons c rest ih =>
    by_cases hc : c = '\n'
    · simp [hc]
    · simpa [hc] using ih

theorem endsLine_dropWhile (text : List Char) : EndsLine (text.dropWhile (· ≠ '\n')) := by
  intro c hc
  rw [takeWhile_dropWhile_line] at hc
  cases hc

variable {line rest : List Char}

theorem after?_append (hr : EndsLine rest) {beginning : List Char} (hfeed : '\n' ∉ beginning)
    (hreturn : '\r' ∉ beginning) (line : List Char) :
    after? beginning (line ++ rest) = (after? beginning line).map (· ++ rest) := by
  induction beginning generalizing line with
  | nil => simp [after?]
  | cons b beginning ih =>
    simp only [List.mem_cons, not_or] at hfeed hreturn
    cases line with
    | cons c line =>
      rw [List.cons_append, after?_cons, after?_cons]
      split
      · exact ih hfeed.2 hreturn.2 line
      · rfl
    | nil =>
      cases rest with
      | nil => rfl
      | cons c rest =>
        have hne : b ≠ c := by
          rintro rfl
          exact hr.head.elim (fun h => hfeed.1 h.symm) fun h => hreturn.1 h.symm
        rw [List.nil_append, after?_cons, if_neg hne]
        rfl

theorem isPrefixOf_eq_isSome (beginning text : List Char) :
    beginning.isPrefixOf text = (after? beginning text).isSome := by
  unfold after?
  cases beginning.isPrefixOf text <;> rfl

theorem leadLength?_eq (text : List Char) :
    leadLength? text = ((after? ['.', '/'] text).map fun _ => 2).or
      ((after? ['.', '.', '/'] text).map fun _ => 3) := by
  unfold leadLength?
  split
  · rfl
  · rfl
  · rename_i hone htwo
    have hnone : after? ['.', '/'] text = none :=
      Option.eq_none_iff_forall_ne_some.2 fun rest h => hone rest (after?_eq_some h)
    have hnone' : after? ['.', '.', '/'] text = none :=
      Option.eq_none_iff_forall_ne_some.2 fun rest h => htwo rest (after?_eq_some h)
    rw [hnone, hnone']
    rfl

theorem leadLength?_append (hr : EndsLine rest) (line : List Char) :
    leadLength? (line ++ rest) = leadLength? line := by
  rw [leadLength?_eq, leadLength?_eq, after?_append hr (by decide) (by decide),
    after?_append hr (by decide) (by decide), Option.map_map, Option.map_map]
  rfl

theorem lastClosing?_append (hr : ∀ c ∈ rest, c = '\r') (line : List Char) :
    lastClosing? (line ++ rest) = lastClosing? line := by
  have hends : EndsLine rest := fun c hc => hr c (List.takeWhile_subset _ hc)
  induction line with
  | nil =>
    refine Option.eq_none_iff_forall_ne_some.2 fun count h => ?_
    obtain ⟨before, behind, rfl, -⟩ := lastClosing?_eq_some h
    exact absurd (hr '.' (by simp [closing])) (by decide)
  | cons c line ih =>
    have hprefix : closing.isPrefixOf (c :: (line ++ rest)) = closing.isPrefixOf (c :: line) := by
      rw [isPrefixOf_eq_isSome, isPrefixOf_eq_isSome, ← List.cons_append,
        after?_append hends (by decide) (by decide), Option.isSome_map]
    rw [List.cons_append, lastClosing?, lastClosing?, ih, hprefix]

theorem takeWhile_append_line (hr : EndsLine rest) {p : Char → Bool} (hfeed : p '\n' = false)
    (hreturn : p '\r' = false) (line : List Char) :
    (line ++ rest).takeWhile p = line.takeWhile p := by
  have hnothing : rest.takeWhile p = [] := by
    cases rest with
    | nil => rfl
    | cons c rest => rcases hr.head with rfl | rfl <;> simp [hfeed, hreturn]
  rw [List.takeWhile_append, hnothing, List.append_nil]
  split
  · rename_i hall
    exact ((List.takeWhile_prefix p).eq_of_length hall).symm
  · rfl

theorem lastClosing?_line_append (hr : EndsLine rest) (hfeed : '\n' ∉ line) :
    lastClosing? (((line ++ rest).takeWhile (· ≠ '\n')).drop 1) =
      lastClosing? ((line.takeWhile (· ≠ '\n')).drop 1) := by
  have hline : ∀ c ∈ line, decide (c ≠ '\n') = true := fun c hc =>
    decide_eq_true fun he => hfeed (he ▸ hc)
  rw [List.takeWhile_append_of_pos hline, List.takeWhile_eq_self_iff.2 hline]
  cases line with
  | nil =>
    have hreturns : ∀ c ∈ (rest.takeWhile (· ≠ '\n')).drop 1, c = '\r' := fun c hc =>
      hr c (List.mem_of_mem_drop hc)
    exact lastClosing?_append hreturns []
  | cons c line => exact lastClosing?_append hr line

/-- A relative path is read from its line. -/
theorem relativePath?_append (hr : EndsLine rest) (hfeed : '\n' ∉ line) :
    relativePath? (line ++ rest) = relativePath? line := by
  unfold relativePath?
  rw [leadLength?_append hr]
  cases hlead : leadLength? line with
  | none => rfl
  | some lead =>
    obtain ⟨dots, inner, -, rfl, rfl⟩ := leadLength?_eq_some hlead
    have hinner : '\n' ∉ inner := fun hm =>
      hfeed (List.mem_append_right _ (List.mem_cons_of_mem _ hm))
    have hdrop (behind : List Char) :
        (dots ++ '/' :: inner ++ behind).drop (dots.length + 1) = inner ++ behind := by
      simp [← List.drop_drop]
    have hdrop' := hdrop []
    rw [List.append_nil, List.append_nil] at hdrop'
    simp only [Option.bind_eq_bind, Option.bind_some, hdrop, hdrop']
    rw [lastClosing?_line_append hr hinner]
    cases hcount : lastClosing? ((inner.takeWhile (· ≠ '\n')).drop 1) with
    | none => rfl
    | some count =>
      obtain ⟨inside, behind, hlength, -, rfl⟩ := exists_of_lastClosing?_line hcount
      have hle : dots.length + 1 + count + 4 ≤
          (dots ++ '/' :: (inside ++ (closing ++ behind))).length := by
        simp [closing, hlength]
        omega
      simp only [Option.bind_some, List.take_append_of_le_length hle]

/-- Whether a statement starts at a text is seen in its line. -/
theorem statementAt?_append (hr : EndsLine rest) (hfeed : '\n' ∉ line) :
    statementAt? (line ++ rest) = statementAt? line := by
  unfold statementAt?
  rw [after?_append hr (by decide) (by decide)]
  cases hopening : after? opening line with
  | none => rfl
  | some behind =>
    obtain rfl := after?_eq_some hopening
    have hword := takeWhile_append_line hr (p := isWord) (by decide) (by decide) behind
    have hdrop : (behind ++ rest).drop (behind.takeWhile isWord).length =
        behind.drop (behind.takeWhile isWord).length ++ rest :=
      List.drop_append_of_le_length (List.takeWhile_prefix isWord).length_le
    simp only [Option.bind_eq_bind, Option.map_some, Option.bind_some, hword, hdrop]
    split
    · rfl
    · rw [after?_append hr (by decide) (by decide)]
      cases hmiddle : after? middle (behind.drop (behind.takeWhile isWord).length) with
      | none => rfl
      | some located =>
        have hlocated : '\n' ∉ located := by
          intro hm
          have hbehind := List.mem_append_right middle hm
          rw [← after?_eq_some hmiddle] at hbehind
          exact hfeed (List.mem_append_right _ (List.mem_of_mem_drop hbehind))
        simp only [Option.map_some, Option.bind_some, relativePath?_append hr hlocated]

theorem statementsFrom_of_none {c : Char} {rest : List Char} (h : statementAt? (c :: rest) = none) :
    statementsFrom 0 (c :: rest) = statementsFrom 0 rest := by
  rw [statementsFrom, h]

end EsmCompletion.Imports
