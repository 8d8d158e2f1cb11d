import EsmCompletion.Proofs.Buffer.LineEndings
import EsmCompletion.Proofs.FileTree.Lookup
import EsmCompletion.Proofs.Imports.Statement
import EsmCompletion.Session

/-! # Line breaks do not show in the answers

Whether the lines of a buffer end in a line feed or in a carriage return and a line feed, the same
aliases are found in it, and a request at the same places has the same outcome. The scan passes over
the carriage returns because no statement holds one, and the places lie in the same lines. -/

namespace EsmCompletion

namespace Imports

open Buffer (addReturns)

/-! ## The scan -/

theorem endsLine_addReturns_dropWhile (text : List Char) :
    EndsLine (addReturns (text.dropWhile (· ≠ '\n'))) := by
  intro c hc
  rcases Buffer.takeWhile_addReturns (text.dropWhile (· ≠ '\n')) with h | h
  · rw [h, takeWhile_dropWhile_line] at hc
    cases hc
  · rw [h, takeWhile_dropWhile_line] at hc
    exact List.mem_singleton.1 hc

theorem statementAt?_line (text : List Char) :
    statementAt? (text.takeWhile (· ≠ '\n')) = statementAt? text := by
  conv_rhs => rw [← List.takeWhile_append_dropWhile (p := (· ≠ '\n')) (l := text)]
  exact (statementAt?_append (endsLine_dropWhile text) (lineFeed_not_mem_line text)).symm

theorem statementAt?_addReturns (text : List Char) :
    statementAt? (addReturns text) = statementAt? text := by
  have hfeed := lineFeed_not_mem_line text
  rw [← statementAt?_line text]
  conv_lhs => rw [← List.takeWhile_append_dropWhile (p := (· ≠ '\n')) (l := text),
    Buffer.addReturns_append, Buffer.addReturns_of_line hfeed]
  exact statementAt?_append (endsLine_addReturns_dropWhile text) hfeed

/-- A statement ends before its line does. -/
theorem lineFeed_not_mem_take {text : List Char} {statement : Statement}
    (h : statementAt? text = some statement) : '\n' ∉ text.take statement.length := by
  rw [← statementAt?_line] at h
  have hle := length_le_of_statementAt? h
  rw [← List.takeWhile_append_dropWhile (p := (· ≠ '\n')) (l := text),
    List.take_append_of_le_length hle]
  exact fun hm => lineFeed_not_mem_line text (List.mem_of_mem_take hm)

theorem statementsFrom_addReturns (skipped : Nat) (text : List Char)
    (h : '\n' ∉ text.take skipped) :
    statementsFrom skipped (addReturns text) = statementsFrom skipped text := by
  -- what is skipped is the rest of a statement, and so lies in the line
  induction text generalizing skipped with
  | nil => rfl
  | cons c rest ih =>
    have hstart := statementAt?_addReturns (c :: rest)
    by_cases hc : c = '\n'
    · subst hc
      cases skipped with
      | succ skipped => exact absurd (List.mem_cons_self ..) h
      | zero =>
        have hfeed (rest : List Char) : statementAt? ('\n' :: rest) = none := rfl
        rw [Buffer.addReturns_lineFeed_cons] at hstart ⊢
        rw [statementsFrom_of_none (hstart.trans (hfeed _)), statementsFrom_of_none (hfeed _),
          statementsFrom_of_none (hfeed _)]
        exact ih 0 (by simp)
    · rw [Buffer.addReturns_cons hc] at hstart ⊢
      cases skipped with
      | succ skipped => exact ih skipped fun hm => h (List.mem_cons_of_mem _ hm)
      | zero =>
        rw [statementsFrom, statementsFrom, hstart]
        cases hs : statementAt? (c :: rest) with
        | none => exact ih 0 (by simp)
        | some statement =>
          have hfeed : '\n' ∉ rest.take (statement.length - 1) := by
            intro hm
            refine lineFeed_not_mem_take hs ?_
            cases hlength : statement.length with
            | zero => simp [hlength] at hm
            | succ length =>
              rw [hlength, Nat.add_sub_cancel] at hm
              exact List.mem_cons_of_mem _ hm
          simp only [ih _ hfeed]

theorem statements_addReturns (text : List Char) :
    statements (addReturns text) = statements text :=
  statementsFrom_addReturns 0 text (by simp)

/-- The same aliases are found, if the window holds the longer text. -/
theorem ofBuffer_withReturns {lookahead : Nat} {buffer : Buffer}
    (h : buffer.withReturns.length ≤ lookahead) :
    ofBuffer lookahead buffer.withReturns = ofBuffer lookahead buffer := by
  have hlong : (addReturns buffer.text.toList).length ≤ lookahead := by
    simpa [Buffer.length, Buffer.withReturns] using h
  have hshort : buffer.text.toList.length ≤ lookahead := by
    rw [Buffer.length_addReturns] at hlong
    omega
  have hslice : (buffer.withReturns.slice 0 lookahead).toList = addReturns buffer.text.toList := by
    simp [Buffer.slice, Buffer.withReturns, List.take_of_length_le hlong]
  have hslice' : (buffer.slice 0 lookahead).toList = buffer.text.toList := by
    simp [Buffer.slice, List.take_of_length_le hshort]
  unfold ofBuffer
  rw [hslice, hslice', statements_addReturns]
  rfl

end Imports

/-! ## Requests -/

theorem ModuleCache.suggestAll_withReturns (tree : FileTree) (aliases : Aliases) (buffer : Buffer)
    (locations : List Nat) (cache : ModuleCache) :
    suggestAll tree aliases buffer.withReturns (locations.map buffer.moved) cache =
      suggestAll tree aliases buffer locations cache := by
  induction locations generalizing cache with
  | nil => rfl
  | cons location rest ih =>
    rw [List.map_cons, suggestAll_cons, suggestAll_cons, Buffer.lineAt_moved]
    simp only [ih]

namespace Session

/-- Line breaks do not matter. Where every line feed of a buffer gets a carriage return before it,
the aliases stay the same as long as the whole buffer is scanned, and so does the outcome of a
request at the moved places: its answer, the cache it leaves and what it logs. -/
theorem line_breaks_do_not_matter (session : Session) (tree : FileTree) (buffer : Buffer)
    (locations : List Nat)
    (h : buffer.withReturns.length ≤ session.configuration.importLookahead) :
    session.aliases buffer.withReturns = session.aliases buffer ∧
      session.query tree buffer.withReturns (locations.map buffer.moved) =
        session.query tree buffer locations := by
  have haliases : session.aliases buffer.withReturns = session.aliases buffer :=
    Imports.ofBuffer_withReturns h
  have hsuggestions :
      session.suggestions tree buffer.withReturns (locations.map buffer.moved) =
        session.suggestions tree buffer locations := by
    simp only [suggestions_eq, haliases, ModuleCache.suggestAll_withReturns]
    rfl
  refine ⟨haliases, ?_⟩
  rw [query_eq, query_eq, hsuggestions]
  rfl

/-- An import on a line of its own, and places behind the alias and past the end of the text. -/
theorem carriage_returns_pass_unseen :
    let buffer : Buffer := ⟨"import * as A from './a.js'\nA.", some ⟨"/m/main.js"⟩⟩
    let tree : FileTree := .oneModule "export let a = 1;" ⟨5, 0⟩
    buffer.withReturns.text = "import * as A from './a.js'\r\nA." ∧
      [30, 99].map buffer.moved = [31, 100] ∧
      buffer.withReturns.length ≤ (new {}).configuration.importLookahead ∧
      ((new {}).query tree buffer.withReturns ([30, 99].map buffer.moved)).answer =
        some [⟨"a\ta.js", "a"⟩, ⟨"a\ta.js", "a"⟩] := by
  intro buffer tree
  have h : buffer.withReturns.length ≤ (new {}).configuration.importLookahead := by decide +kernel
  refine ⟨by decide +kernel, by decide +kernel, h, ?_⟩
  rw [(line_breaks_do_not_matter (new {}) tree buffer [30, 99] h).2]
  decide +kernel

end Session

end EsmCompletion
