import EsmCompletion.Decimal
import EsmCompletion.Proofs.Text.Pieces
import EsmCompletion.Suggestion
import Mathlib.Data.List.Forall2
import Mathlib.Data.List.Infix

/-! # The label and the snippet of a call

A snippet holds its placeholders and nothing else that opens one, and a snippet whose placeholders
are replaced by what they are filled with is the label up to its first tab. Names may hold dollar
signs, so that one may stand right before a parenthesis or a closing brace; but a placeholder is
opened by a dollar sign and a brace, and no name holds a brace. As names hold no other markup
either, a label can be taken apart again. -/

namespace EsmCompletion.Suggestion

/-- The letters that mark the parts of labels and of snippets. -/
def markup : List Char := ['(', ')', '\x7b', '\x7d', ':', ',', ' ', '\t']

/-- The names that hold no markup. -/
structure IsPlain (name : String) : Prop where
  nonempty : name ≠ ""
  apart : ∀ c ∈ markup, c ∉ name.toList

instance : DecidablePred IsPlain := fun name =>
  have := List.decidableBAll (fun c => c ∉ name.toList) markup
  decidable_of_iff (name ≠ "" ∧ ∀ c ∈ markup, c ∉ name.toList)
    ⟨fun h => ⟨h.1, h.2⟩, fun h => ⟨h.nonempty, h.apart⟩⟩

/-! ## Reading snippets -/

/-- Whether a placeholder is opened at the start of a text. -/
def opensHere (text : List Char) : Bool := ['$', '\x7b'].isPrefixOf text

/-- The parts of a snippet that begin where a placeholder is opened, from left to right. -/
def openings (snippet : List Char) : List (List Char) := snippet.tails.filter opensHere

/-- What is read of a snippet: text, the number of a placeholder, or what the placeholder is filled
with. -/
inductive SnippetPart where
  | text
  | number
  | filling

/-- A snippet with what its placeholders are filled with in their place, read from inside a part. -/
def expandFrom : SnippetPart → List Char → List Char
  | .text, '$' :: '\x7b' :: rest => expandFrom .number rest
  | .text, c :: rest => c :: expandFrom .text rest
  | .number, ':' :: rest => expandFrom .filling rest
  | .number, _ :: rest => expandFrom .number rest
  | .filling, '\x7d' :: rest => expandFrom .text rest
  | .filling, c :: rest => c :: expandFrom .filling rest
  | _, [] => []

def expand (snippet : List Char) : List Char := expandFrom .text snippet

variable {c : Char} {text rest : List Char}

theorem opensHere_cons (h : rest.head? ≠ some '\x7b') : opensHere (c :: rest) = false := by
  rw [Bool.eq_false_iff]
  intro hp
  obtain ⟨behind, hb⟩ := List.isPrefixOf_iff_prefix.1 hp
  obtain ⟨-, rfl⟩ := List.cons.inj hb
  exact h rfl

theorem openings_cons (h : opensHere (c :: rest) = false) :
    openings (c :: rest) = openings rest := by
  simp [openings, h]

theorem expand_cons (h : opensHere (c :: rest) = false) :
    expand (c :: rest) = c :: expand rest := by
  rw [expand, expandFrom.eq_def]
  split <;> simp_all [opensHere, expand]

/-- Text without a brace opens no placeholder, even if it ends in a dollar sign. -/
theorem openings_append (ht : '\x7b' ∉ text) (hr : rest.head? ≠ some '\x7b') :
    openings (text ++ rest) = openings rest ∧ expand (text ++ rest) = text ++ expand rest := by
  induction text with
  | nil => exact ⟨rfl, rfl⟩
  | cons c text ih =>
    simp only [List.mem_cons, not_or] at ht
    obtain ⟨hopenings, hexpand⟩ := ih ht.2
    have hnext : (text ++ rest).head? ≠ some '\x7b' := by
      cases text with
      | nil => exact hr
      | cons d text => exact fun e => ht.2 (by simp [Option.some.inj e])
    have hnone : opensHere (c :: (text ++ rest)) = false := opensHere_cons hnext
    rw [List.cons_append, openings_cons hnone, expand_cons hnone, hopenings, hexpand]
    exact ⟨rfl, rfl⟩

theorem expandFrom_number_append {digits : List Char} (h : ':' ∉ digits) (rest : List Char) :
    expandFrom .number (digits ++ ':' :: rest) = expandFrom .filling rest := by
  induction digits with
  | nil => rfl
  | cons d digits ih =>
    simp only [List.mem_cons, not_or] at h
    rw [List.cons_append, expandFrom, ih h.2]
    exact fun e => h.1 e.symm

theorem expandFrom_filling_append (h : '\x7d' ∉ text) (rest : List Char) :
    expandFrom .filling (text ++ '\x7d' :: rest) = text ++ expand rest := by
  induction text with
  | nil => rfl
  | cons d text ih =>
    simp only [List.mem_cons, not_or] at h
    rw [List.cons_append, expandFrom, ih h.2, List.cons_append]
    exact fun e => h.1 e.symm

/-! ## Placeholders -/

variable {number : Nat} {parameter : String} {parameters : List String}

theorem toList_placeholder (number : Nat) (parameter : String) :
    (placeholder number parameter).toList =
      '$' :: '\x7b' :: ((toString number).toList ++ ':' :: (parameter.toList ++ ['\x7d'])) := by
  simp [placeholder]

/-- A placeholder is opened once, where it starts, and it is filled with its parameter. -/
theorem openings_placeholder (number : Nat) (h : IsPlain parameter)
    (hr : rest.head? ≠ some '\x7b') :
    openings ((placeholder number parameter).toList ++ rest) =
        ((placeholder number parameter).toList ++ rest) :: openings rest ∧
      expand ((placeholder number parameter).toList ++ rest) = parameter.toList ++ expand rest := by
  have hdigits (c : Char) (hc : c.isDigit = false) : c ∉ (toString number).toList := fun hm => by
    rw [isDigit_of_mem_toString hm] at hc
    cases hc
  have hinside : '\x7b' ∉ (toString number).toList ++ ':' :: (parameter.toList ++ ['\x7d']) := by
    simp only [List.mem_append, List.mem_cons, not_or]
    exact ⟨hdigits _ (by decide), by decide, h.apart _ (by decide), by decide, List.not_mem_nil⟩
  have hopenings := (openings_append hinside hr).1
  rw [toList_placeholder]
  simp only [List.cons_append]
  constructor
  · have hbrace : opensHere ('\x7b' :: ((toString number).toList ++
        ':' :: (parameter.toList ++ ['\x7d']) ++ rest)) = false := rfl
    rw [← hopenings, ← openings_cons hbrace]
    simp [openings, opensHere]
  · have hnumber := expandFrom_number_append (hdigits ':' (by decide))
      (parameter.toList ++ '\x7d' :: rest)
    have hfilling := expandFrom_filling_append (h.apart '\x7d' (by decide)) rest
    rw [← hfilling, ← hnumber]
    simp [expand, expandFrom]

/-- What stands between the parentheses of a label. -/
def shownList (parameters : List String) : List Char :=
  ", ".toList.intercalate (parameters.map String.toList)

/-- What stands between the parentheses of a snippet. -/
def insertedList (number : Nat) (parameters : List String) : List Char :=
  ", ".toList.intercalate ((placeholdersFrom number parameters).map String.toList)

theorem toList_label (moduleName name : String) (parameters : List String) :
    (callable moduleName name parameters).label.toList =
      name.toList ++ '(' :: (shownList parameters ++ ')' :: '\t' :: moduleName.toList) := by
  simp [callable, shownList]

theorem toList_insertion (moduleName name : String) (parameters : List String) :
    (callable moduleName name parameters).insertion.toList =
      name.toList ++ '(' :: (insertedList 1 parameters ++ [')']) := by
  simp [callable, insertedList]

/-- Whether a placeholder with the given number for the given parameter is opened at the start of a
text. -/
def Opens (entry : String × Nat) (text : List Char) : Prop :=
  (placeholder entry.2 entry.1).toList <+: text

/-- The placeholders are opened in the order of the parameters, and nothing else is; and they are
filled with the parameters. -/
theorem openings_insertedList (h : ∀ parameter ∈ parameters, IsPlain parameter) (number : Nat)
    (hr : rest.head? ≠ some '\x7b') (hnone : openings rest = []) :
    List.Forall₂ Opens (parameters.zipIdx number)
        (openings (insertedList number parameters ++ rest)) ∧
      expand (insertedList number parameters ++ rest) = shownList parameters ++ expand rest := by
  induction parameters generalizing number with
  | nil => simp [insertedList, shownList, placeholdersFrom, hnone]
  | cons parameter others ih =>
    have hplain := h parameter (List.mem_cons_self ..)
    have hothers : ∀ other ∈ others, IsPlain other := fun other hm =>
      h other (List.mem_cons_of_mem _ hm)
    obtain ⟨hopenings, hexpand⟩ := ih hothers (number + 1)
    cases others with
    | nil =>
      obtain ⟨hfirst, hfilled⟩ := openings_placeholder number hplain hr
      simp [insertedList, shownList, placeholdersFrom, hfirst, hfilled, hnone, Opens]
    | cons next others =>
      have hsplit : insertedList number (parameter :: next :: others) ++ rest =
          (placeholder number parameter).toList ++
            ',' :: ' ' :: (insertedList (number + 1) (next :: others) ++ rest) := by
        simp [insertedList, placeholdersFrom, List.intercalate_cons_cons]
      have hshown : shownList (parameter :: next :: others) =
          parameter.toList ++ ',' :: ' ' :: shownList (next :: others) := by
        simp [shownList, List.intercalate_cons_cons]
      have hcomma : (',' :: ' ' :: (insertedList (number + 1) (next :: others) ++ rest)).head? ≠
          some '\x7b' := by simp
      obtain ⟨hfirst, hfilled⟩ := openings_placeholder number hplain hcomma
      rw [hsplit, hshown, hfirst, hfilled]
      constructor
      · exact .cons (List.prefix_append ..) hopenings
      · rw [expand_cons rfl, expand_cons rfl, hexpand]
        simp

/-! ## Suggestions are told apart -/

/-- Between parentheses there is no markup but what parts the parameters. -/
theorem not_mem_shownList (h : ∀ parameter ∈ parameters, IsPlain parameter) (hc : c ∈ markup)
    (hs : c ∉ ", ".toList) : c ∉ shownList parameters := by
  refine not_mem_intercalate hs fun piece hm => ?_
  obtain ⟨parameter, hp, rfl⟩ := List.mem_map.1 hm
  exact (h parameter hp).apart c hc

theorem shownList_inj {others : List String} (h : ∀ parameter ∈ parameters, IsPlain parameter)
    (ho : ∀ parameter ∈ others, IsPlain parameter) (he : shownList parameters = shownList others) :
    parameters = others := by
  have hpieces {names : List String} (hn : ∀ name ∈ names, IsPlain name) :
      ∀ piece ∈ names.map String.toList, piece ≠ [] ∧ ',' ∉ piece := by
    intro piece hm
    obtain ⟨name, hname, rfl⟩ := List.mem_map.1 hm
    have hplain := hn name hname
    exact ⟨by simpa using hplain.nonempty, hplain.apart ',' (by decide)⟩
  have hinjective : Function.Injective String.toList := fun _ _ => String.toList_inj.1
  exact List.map_injective_iff.2 hinjective (intercalate_inj (hpieces h) (hpieces ho) he)

/-- The parts of a call can be read off its label. -/
theorem callable_inj {moduleName otherModule name otherName : String} {others : List String}
    (hname : IsPlain name) (h : ∀ parameter ∈ parameters, IsPlain parameter)
    (hother : IsPlain otherName) (ho : ∀ parameter ∈ others, IsPlain parameter)
    (he : callable otherModule otherName others = callable moduleName name parameters) :
    otherModule = moduleName ∧ otherName = name ∧ others = parameters := by
  have hclosing {names : List String} (hn : ∀ name ∈ names, IsPlain name) : ')' ∉ shownList names :=
    not_mem_shownList hn (by decide) (by decide)
  have hlabel := congrArg (String.toList ∘ Suggestion.label) he
  simp only [Function.comp_apply, toList_label] at hlabel
  obtain ⟨hsame, hrest⟩ := eq_of_append_cons_eq (hother.apart '(' (by decide))
    (hname.apart '(' (by decide)) hlabel
  obtain ⟨hlist, hmodule⟩ := eq_of_append_cons_eq (hclosing ho) (hclosing h) hrest
  exact ⟨String.toList_inj.1 (List.cons.inj hmodule).2, String.toList_inj.1 hsame,
    shownList_inj ho h hlist⟩

theorem value_ne_callable {name : String} (hname : IsPlain name) (moduleName otherModule : String)
    (otherName : String) (parameters : List String) :
    value moduleName name ≠ callable otherModule otherName parameters := by
  intro he
  have hinsertion := congrArg (String.toList ∘ Suggestion.insertion) he
  simp only [Function.comp_apply, toList_insertion] at hinsertion
  have hmem : '(' ∈ name.toList := by
    rw [show name.toList = _ from hinsertion]
    simp
  exact hname.apart '(' (by decide) hmem

theorem value_inj {moduleName otherModule name otherName : String}
    (he : value otherModule otherName = value moduleName name) :
    otherModule = moduleName ∧ otherName = name := by
  obtain rfl : otherName = name := congrArg Suggestion.insertion he
  have hlabel := congrArg (String.toList ∘ Suggestion.label) he
  exact ⟨String.toList_inj.1 (by simpa [value] using hlabel), rfl⟩

/-- The label and the snippet of a call with plain names describe the same call, and nothing is lost
in them. A placeholder is opened in the snippet once for each parameter, numbered from one in their
order, and nowhere else. With its placeholders filled in, the snippet is the label up to its first
tab, and behind that tab is the name of the module. The suggestions of two calls are the same only
for the same module, name and parameters, no call is suggested as a value is, and two values are
suggested alike only for the same module and name. -/
theorem label_and_snippet_agree (moduleName name : String) (parameters : List String)
    (hname : IsPlain name) (hparameters : ∀ parameter ∈ parameters, IsPlain parameter) :
    let call := callable moduleName name parameters
    List.Forall₂ Opens (parameters.zipIdx 1) (openings call.insertion.toList) ∧
      expand call.insertion.toList = call.label.toList.takeWhile (· ≠ '\t') ∧
      call.label.toList.dropWhile (· ≠ '\t') = '\t' :: moduleName.toList ∧
      ∀ otherModule otherName, IsPlain otherName →
        (∀ others, (∀ parameter ∈ others, IsPlain parameter) →
          callable otherModule otherName others = call →
            otherModule = moduleName ∧ otherName = name ∧ others = parameters) ∧
        value otherModule otherName ≠ call ∧
        (value otherModule otherName = value moduleName name →
          otherModule = moduleName ∧ otherName = name) := by
  intro call
  have hclosing : [')'].head? ≠ some '\x7b' := by decide
  have hopening : ('(' :: (insertedList 1 parameters ++ [')'])).head? ≠ some '\x7b' := by simp
  obtain ⟨hopens, hfilled⟩ := openings_insertedList hparameters 1 hclosing rfl
  obtain ⟨hopenings, hexpand⟩ := openings_append (hname.apart '\x7b' (by decide)) hopening
  have hexpanded : expand call.insertion.toList =
      name.toList ++ '(' :: (shownList parameters ++ [')']) := by
    rw [toList_insertion, hexpand, expand_cons rfl, hfilled]
    rfl
  have hlabel : call.label.toList =
      (name.toList ++ '(' :: (shownList parameters ++ [')'])) ++ '\t' :: moduleName.toList := by
    rw [toList_label]
    simp
  have htab : ∀ c ∈ name.toList ++ '(' :: (shownList parameters ++ [')']),
      decide (c ≠ '\t') = true := by
    have hnone : '\t' ∉ name.toList ++ '(' :: (shownList parameters ++ [')']) := by
      simp [hname.apart '\t' (by decide),
        not_mem_shownList hparameters (c := '\t') (by decide) (by decide)]
    exact fun c hm => decide_eq_true fun e => hnone (e ▸ hm)
  refine ⟨?_, ?_, ?_, fun otherModule otherName hother => ⟨fun others ho he => ?_, ?_, value_inj⟩⟩
  · rw [toList_insertion, hopenings, openings_cons rfl]
    exact hopens
  · rw [hexpanded, hlabel, List.takeWhile_append_of_pos htab]
    simp
  · rw [hlabel, List.dropWhile_append_of_pos htab]
    simp
  · exact callable_inj hname hparameters hother ho he
  · exact value_ne_callable hother _ _ _ _

/-- A call whose name and parameters end in dollar signs. -/
theorem agree_on_dollar_signs :
    let call := callable "m.js" "a$" ["$", "b$"]
    call.insertion = "a$($\x7b1:$\x7d, $\x7b2:b$\x7d)" ∧
      (openings call.insertion.toList).length = 2 ∧
      expand call.insertion.toList = "a$($, b$)".toList ∧
      value "m.js" "a$" ≠ call ∧
      ∀ others, (∀ parameter ∈ others, IsPlain parameter) →
        callable "m.js" "a$" others = call → others = ["$", "b$"] := by
  intro call
  have hname : IsPlain "a$" := by decide
  have hparameters : ∀ parameter ∈ ["$", "b$"], IsPlain parameter := by decide
  obtain ⟨hopens, hexpand, -, hapart⟩ :=
    label_and_snippet_agree "m.js" "a$" ["$", "b$"] hname hparameters
  obtain ⟨hcalls, hvalue, -⟩ := hapart "m.js" "a$" hname
  exact ⟨by decide, hopens.length_eq.symm, hexpand.trans (by decide), hvalue,
    fun others ho he => (hcalls others ho he).2.2⟩

end EsmCompletion.Suggestion
