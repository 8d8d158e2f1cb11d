import EsmCompletion.Proofs.Exports.Collected
import EsmCompletion.Proofs.ListFormat.Lines
import EsmCompletion.Proofs.Suggestion.Placeholders

/-! # Exports that can be listed

What is suggested for an export adds one tab to the names it is made of, and that stands in the
label. So the exports of a module can be listed if none of its names holds a tab or a line feed, and
if no line feed is in what is shown for the module. -/

namespace EsmCompletion

/-- What parts a list into lines, and a line into columns. -/
def breaks : List Char := ['\n', '\t']

def IsUnbroken (name : String) : Prop := ∀ c ∈ breaks, c ∉ name.toList

instance : DecidablePred IsUnbroken := fun name =>
  List.decidableBAll (fun c => c ∉ name.toList) breaks

theorem eq_of_mem_breaks {c : Char} (h : c ∈ breaks) : c = '\n' ∨ c = '\t' := by
  simpa [breaks] using h

namespace Suggestion

variable {c : Char} {moduleName name : String} {parameters : List String}

/-! ## Single suggestions -/

theorem exists_of_mem_placeholdersFrom {number : Nat} {text : String}
    (h : text ∈ placeholdersFrom number parameters) :
    ∃ place, ∃ parameter ∈ parameters, text = placeholder place parameter := by
  induction parameters generalizing number with
  | nil => cases h
  | cons parameter rest ih =>
    rcases List.mem_cons.1 h with rfl | h
    · exact ⟨number, parameter, List.mem_cons_self .., rfl⟩
    · obtain ⟨place, other, ho, rfl⟩ := ih h
      exact ⟨place, other, List.mem_cons_of_mem _ ho, rfl⟩

/-- The markup of a placeholder breaks no line, and its number does not either. -/
theorem not_mem_placeholder (hc : c ∈ breaks) {parameter : String} (h : c ∉ parameter.toList)
    (number : Nat) : c ∉ (placeholder number parameter).toList := by
  have hdigits : c ∉ (toString number).toList := fun hm => by
    have hdigit := isDigit_of_mem_toString hm
    rcases eq_of_mem_breaks hc with rfl | rfl <;> cases hdigit
  have hapart : c ∉ ['$', '\x7b', ':', '\x7d'] := by
    rcases eq_of_mem_breaks hc with rfl | rfl <;> decide
  simp only [List.mem_cons, not_or] at hapart
  obtain ⟨hdollar, hopening, hcolon, hclosing⟩ := hapart
  rw [toList_placeholder]
  simp only [List.mem_cons, List.mem_append, not_or]
  exact ⟨hdollar, hopening, hdigits, hcolon, h, hclosing⟩

theorem not_mem_comma (hc : c ∈ breaks) : c ∉ ", ".toList := by
  rcases eq_of_mem_breaks hc with rfl | rfl <;> decide

variable (hp : ∀ parameter ∈ parameters, IsUnbroken parameter)

include hp

theorem not_mem_shownList_of_unbroken (hc : c ∈ breaks) : c ∉ shownList parameters := by
  refine not_mem_intercalate (not_mem_comma hc) fun piece hm => ?_
  obtain ⟨parameter, hparameter, rfl⟩ := List.mem_map.1 hm
  exact hp parameter hparameter c hc

theorem not_mem_insertedList (hc : c ∈ breaks) (number : Nat) :
    c ∉ insertedList number parameters := by
  refine not_mem_intercalate (not_mem_comma hc) fun piece hm => ?_
  obtain ⟨text, htext, rfl⟩ := List.mem_map.1 hm
  obtain ⟨place, parameter, hparameter, rfl⟩ := exists_of_mem_placeholdersFrom htext
  exact not_mem_placeholder hc (hp parameter hparameter c hc) place

theorem isListable_callable (hm : '\n' ∉ moduleName.toList) (hn : IsUnbroken name) :
    (callable moduleName name parameters).IsListable := by
  have hfeed : '\n' ∈ breaks := by decide
  have htab : '\t' ∈ breaks := by decide
  refine ⟨?_, ?_, ?_⟩
  · rw [toList_label]
    simp [hm, hn _ hfeed, not_mem_shownList_of_unbroken hp hfeed]
  · rw [toList_insertion]
    simp [hn _ hfeed, not_mem_insertedList hp hfeed]
  · rw [toList_insertion]
    simp [hn _ htab, not_mem_insertedList hp htab]

omit hp

theorem isListable_value (hm : '\n' ∉ moduleName.toList) (hn : IsUnbroken name) :
    (value moduleName name).IsListable where
  label := by simp [value, hm, hn '\n' (by decide)]
  insertion := ⟨hn '\n' (by decide), hn '\t' (by decide)⟩

theorem isListable_ofAlias (hn : IsUnbroken name) : (ofAlias name).IsListable where
  label := by simp [ofAlias, hn '\n' (by decide)]
  insertion := ⟨hn '\n' (by decide), hn '\t' (by decide)⟩

end Suggestion

/-! ## The exports of a module -/

namespace Exports

/-- The names that a module's exports are suggested with: their own, and those of the parameters
that are shown. -/
def Item.names (item : Item) : List String :=
  item.name :: (item.parameters.getD []).filterMap parameterName?

def names (program : Script.Program) : List String := (items program).flatMap Item.names

def Listable (exports : ExportMap) : Prop := ∀ entry ∈ exports.entries, entry.2.IsListable

theorem listable_empty : Listable .empty := fun entry h => by cases h

variable {moduleName : String}

theorem Item.isListable_suggestion {item : Item} (hm : '\n' ∉ moduleName.toList)
    (hn : ∀ name ∈ item.names, IsUnbroken name) : (item.suggestion moduleName).IsListable := by
  have hname : IsUnbroken item.name := hn _ (List.mem_cons_self ..)
  unfold Item.suggestion
  split
  · rename_i parameters hp
    refine Suggestion.isListable_callable (fun parameter hm => hn parameter ?_) hm hname
    simp [names, hp, hm]
  · exact Suggestion.isListable_value hm hname

/-- What a module exports can be listed if the names that it is parsed to can. -/
theorem listable_of_exportsOf {source : String} {exports : ExportMap}
    (hm : '\n' ∉ moduleName.toList)
    (hn : ∀ program, Script.Program.parse? source = some program →
      ∀ name ∈ names program, IsUnbroken name)
    (h : exportsOf source moduleName = .ok exports) : Listable exports := by
  obtain ⟨program, hparse, hitems⟩ := exists_items_of_exportsOf moduleName h
  intro entry hentry
  obtain ⟨item, hitem, rfl⟩ := hitems entry hentry
  exact item.isListable_suggestion hm fun name hname =>
    hn program hparse name (List.mem_flatMap.2 ⟨item, hitem, hname⟩)

end Exports

end EsmCompletion
