import EsmCompletion.Proofs.Imports.Declared

/-! # A larger window adds aliases at the end

A window may end anywhere, in the path of an import as well. Where an import was read in the line that
it cuts, the rest of that line may give the import a longer path, but no import comes to stand in front
of it: one that does would find the end of a path in the import that was read, and so would have been
read before. So each line keeps its alias when more is seen of it, and new aliases come behind. -/

namespace EsmCompletion.Imports

/-! ## The line that is cut -/

/-- A relative path at the start of a text begins in front of an import in that text, if the import does
not come first. -/
theorem IsRelative.exists_lead {path behind between rest : List Char} (hr : IsRelative path)
    (h : path ++ behind = between ++ (opening ++ rest)) :
    ∃ dots further, (dots = ['.'] ∨ dots = ['.', '.']) ∧ between = dots ++ '/' :: further := by
  obtain ⟨dots, inside, hdots, -, -, rfl⟩ := hr
  have hsplit : (dots ++ ['/']) ++ ((inside ++ ".js".toList) ++ behind) =
      between ++ (opening ++ rest) := by
    rw [← h]
    simp
  refine ⟨dots, ?_⟩
  rcases List.append_eq_append_iff.1 hsplit with ⟨further, hbetween, -⟩ | ⟨beyond, hlead, hbeyond⟩
  · exact ⟨further, hdots, by simp [hbetween]⟩
  · cases beyond with
    | nil => exact ⟨[], hdots, by simpa using hlead.symm⟩
    | cons c beyond =>
      -- the import would begin in the dots or with the slash
      obtain rfl : 'i' = c := (List.cons.inj hbeyond).1
      have hmem : 'i' ∈ dots ++ ['/'] := by simp [hlead]
      rcases hdots with rfl | rfl <;> exact absurd hmem (by decide)

/-- A relative path may run on over an import, up to the end of the path of that import. -/
theorem IsRelative.runsOver {dots further word path : List Char}
    (hdots : dots = ['.'] ∨ dots = ['.', '.']) (hr : IsRelative path)
    (hfeed : '\n' ∉ further ++ (lead word ++ '\'' :: path)) :
    IsRelative (dots ++ '/' :: (further ++ (lead word ++ '\'' :: path))) := by
  obtain ⟨dots', inside, -, -, -, rfl⟩ := hr
  have hend : further ++ (lead word ++ '\'' :: (dots' ++ '/' :: (inside ++ ".js".toList))) =
      (further ++ (lead word ++ '\'' :: (dots' ++ '/' :: inside))) ++ ".js".toList := by
    simp
  rw [hend] at hfeed ⊢
  exact ⟨dots, _, hdots, by simp, fun hm => hfeed (List.mem_append_left _ hm), rfl⟩

theorem written_over (other front word path : List Char) :
    written other (front ++ (lead word ++ '\'' :: path)) =
      lead other ++ '\'' :: (front ++ written word path) := by
  have hother := written_eq_lead other (front ++ (lead word ++ '\'' :: path)) []
  have hword := written_eq_lead word path []
  rw [List.append_nil] at hother hword
  rw [hother, hword]
  simp

/-- What is read in front of an import is read up to the end of that import as well. -/
theorem ReadsAs.exists_shorter {front word path behind other longer : List Char} (hne : front ≠ [])
    (hw : IsAlias word) (hr : IsRelative path) (hfeed : '\n' ∉ front ++ written word path)
    (h : ReadsAs (front ++ (written word path ++ behind)) other longer) :
    ∃ shorter, ReadsAs (front ++ written word path) other shorter := by
  obtain ⟨beyond, hstands⟩ := h.stands
  rw [written_eq_lead, written_eq_lead] at hstands
  by_cases hquote : '\'' ∈ front
  · -- its path begins behind the first quote, and may end where that of the import does
    obtain ⟨before, between, rfl, hbefore⟩ := List.eq_append_cons_of_mem hquote
    rw [List.append_assoc, List.cons_append] at hstands hfeed ⊢
    obtain ⟨rfl, hpath⟩ := eq_of_append_cons_eq h.isAlias.quote_not_mem_lead hbefore hstands
    rw [lead, List.append_assoc] at hpath
    obtain ⟨dots, further, hdots, rfl⟩ := h.relative.exists_lead hpath
    rw [← written_over] at hfeed ⊢
    refine ⟨_, h.isAlias, ?_, List.prefix_rfl⟩
    rw [List.append_assoc, List.cons_append] at hfeed ⊢
    refine hr.runsOver hdots fun hm => hfeed ?_
    simp only [written, List.mem_append, List.mem_cons, hm, true_or, or_true]
  · -- two imports do not share a beginning
    rw [← List.append_assoc] at hstands
    have hlead : '\'' ∉ front ++ lead word := by
      simp [hquote, hw.quote_not_mem_lead]
    have hsame := (eq_of_append_cons_eq h.isAlias.quote_not_mem_lead hlead hstands).1
    exact absurd (h.isAlias.eq_of_lead hw hsame).1 hne

/-- What is read of a longer line in front of an import is read of the line itself, from the same place. -/
theorem exists_statementAt?_earlier {line more : List Char} (hfeed : '\n' ∉ line ++ more)
    {place start : Nat} (hlt : place < start) {statement earlier : Statement}
    (hs : statementAt? (line.drop start) = some statement)
    (he : statementAt? ((line ++ more).drop place) = some earlier) :
    ∃ other, statementAt? (line.drop place) = some other := by
  have hread := readsAs_of_statementAt? hs
  have hlength := hread.lt_length
  have hearly := readsAs_of_statementAt? he
  have hnofeed : '\n' ∉ line.drop place := fun hm =>
    hfeed (List.mem_append_left _ (List.mem_of_mem_drop hm))
  obtain ⟨rest, hrest⟩ := hread.stands
  -- the text between the two places, and the import behind it
  have hfront : line.drop place = ((line.drop place).take (start - place) ++
      written statement.moduleAlias statement.path) ++ rest := by
    have hbehind : (line.drop place).drop (start - place) = line.drop start := by
      rw [List.drop_drop, Nat.add_sub_cancel' hlt.le]
    rw [List.append_assoc, hrest, ← hbehind, List.take_append_drop]
  have hne : (line.drop place).take (start - place) ≠ [] := by
    simp only [ne_eq, List.take_eq_nil_iff, List.drop_eq_nil_iff]
    omega
  have hbefore : '\n' ∉ (line.drop place).take (start - place) ++
      written statement.moduleAlias statement.path := fun hm =>
    hnofeed (hfront ▸ List.mem_append_left _ hm)
  rw [List.drop_append_of_le_length (hlt.trans hlength).le, hfront, List.append_assoc,
    List.append_assoc] at hearly
  obtain ⟨shorter, hshorter⟩ := hearly.exists_shorter hne hread.isAlias hread.relative hbefore
  have hthere := hshorter.append rest
  rw [← hfront] at hthere
  obtain ⟨other, hother, -⟩ := hthere.exists_statementAt? hnofeed
  exact ⟨other, hother⟩

/-- When more is seen of a line, its first import keeps its alias. -/
theorem firstStatement?_append {line more : List Char} (hfeed : '\n' ∉ line ++ more)
    {statement : Statement} (h : firstStatement? line = some statement) :
    ∃ first, firstStatement? (line ++ more) = some first ∧
      first.moduleAlias = statement.moduleAlias := by
  obtain ⟨start, hs, hnone⟩ := firstStatement?_eq_some_iff.1 h
  have hread := readsAs_of_statementAt? hs
  have hdrop : (line ++ more).drop start = line.drop start ++ more :=
    List.drop_append_of_le_length hread.lt_length.le
  have hnofeed : '\n' ∉ (line ++ more).drop start := fun hm => hfeed (List.mem_of_mem_drop hm)
  obtain ⟨longer, hlonger, halias, -⟩ :=
    (hread.append more).exists_statementAt? (hdrop ▸ hnofeed)
  rw [← hdrop] at hlonger
  obtain ⟨first, place, hle, hfirst, hplace⟩ := exists_firstStatement? hlonger
  refine ⟨first, hfirst, ?_⟩
  rcases hle.eq_or_lt with rfl | hlt
  · obtain rfl := Option.some.inj (hlonger.symm.trans hplace)
    exact halias
  · obtain ⟨other, hother⟩ := exists_statementAt?_earlier hfeed hlt hs hplace
    cases (hnone place hlt).symm.trans hother

/-! ## The windows of a buffer -/

/-- The aliases in the order in which a scan comes by them, an alias as often as it is declared. -/
def declaredAliases (text : List Char) : List String :=
  (statements text).map (String.ofList ·.moduleAlias)

theorem statements_line {line : List Char} (hfeed : '\n' ∉ line) :
    statements line = (firstStatement? line).toList := by
  rw [statements_eq_lines, List.splitOn_eq_singleton hfeed]
  cases h : firstStatement? line <;> simp [h]

/-- More text at the end declares more aliases at the end. -/
theorem declaredAliases_prefix (text more : List Char) :
    declaredAliases text <+: declaredAliases (text ++ more) := by
  obtain ⟨front, line, rfl, hline, earlier, hearlier⟩ := exists_statements_before text
  have hfeed : '\n' ∉ line ++ more.takeWhile (· ≠ '\n') := fun hm =>
    (List.mem_append.1 hm).elim hline (lineFeed_not_mem_line more)
  have hshort : statements (front ++ line) = earlier ++ (firstStatement? line).toList := by
    have hnothing := hearlier []
    rw [List.append_nil, List.append_nil, statements_line hline] at hnothing
    exact hnothing
  have hlong : statements (front ++ line ++ more) = earlier ++
      ((firstStatement? (line ++ more.takeWhile (· ≠ '\n'))).toList ++
        statements (more.dropWhile (· ≠ '\n'))) := by
    have hlines := statementsFrom_line (endsLine_dropWhile more) hfeed
    rw [List.append_assoc, List.takeWhile_append_dropWhile] at hlines
    exact (hearlier more).trans (congrArg (earlier ++ ·) hlines)
  rw [declaredAliases, declaredAliases, hshort, hlong, List.map_append, List.map_append,
    List.prefix_append_right_inj]
  cases hfirst : firstStatement? line with
  | none => exact List.nil_prefix
  | some statement =>
    obtain ⟨first, hlonger, halias⟩ := firstStatement?_append hfeed hfirst
    refine ⟨declaredAliases (more.dropWhile (· ≠ '\n')), ?_⟩
    simp only [hlonger, Option.toList_some, List.map_append, List.map_singleton, halias]
    rfl

theorem keys_ofBuffer (lookahead : Nat) (text : String) (file : Path) :
    (ofBuffer lookahead ⟨text, some file⟩).keys =
      (declaredAliases (text.toList.take lookahead)).eraseDups := by
  simp only [ofBuffer, Buffer.toList_slice_zero, OrderedMap.keys_ofList, List.map_map]
  rfl

/-- A larger window only adds aliases at the end, wherever the smaller one cuts the text. What an alias
stands for may change. -/
theorem aliases_grow {shorter longer : Nat} (h : shorter ≤ longer) (buffer : Buffer) :
    (ofBuffer shorter buffer).keys <+: (ofBuffer longer buffer).keys := by
  obtain ⟨text, file⟩ := buffer
  cases file with
  | none => exact List.prefix_rfl
  | some file =>
    rw [keys_ofBuffer, keys_ofBuffer]
    obtain ⟨more, hmore⟩ := List.take_prefix_take_left (l := text.toList) h
    obtain ⟨further, hfurther⟩ := declaredAliases_prefix (text.toList.take shorter) more
    rw [← hmore, ← hfurther, List.eraseDups_append]
    exact List.prefix_append _ _

/-- A window that ends with the first of two imports in a line, and one that sees the whole text. -/
theorem aliases_grow_over_cut :
    let buffer : Buffer := ⟨"import * as A from './a.js'; import * as B from './b.js'\n" ++
      "import * as C from './c.js'", some ⟨"/m/main.js"⟩⟩
    27 ≤ 500 ∧ (ofBuffer 27 buffer).keys <+: (ofBuffer 500 buffer).keys ∧
      (ofBuffer 27 buffer).get? "A" = some ⟨"/m/a.js"⟩ ∧
      (ofBuffer 500 buffer).get? "A" = some ⟨"/m/a.js'; import * as B from './b.js"⟩ ∧
      (ofBuffer 500 buffer).keys = ["A", "C"] := by
  intro buffer
  exact ⟨by decide, aliases_grow (by decide) buffer, by decide +kernel, by decide +kernel,
    by decide +kernel⟩

end EsmCompletion.Imports
