import EsmCompletion.Proofs.CommandLine.Answers

/-! # What is written to a log

The events that pass the filter add their lines at the end of the log file, in the order in which
they happened; what stood there before stays. With the filter that is used by default these are the
events whose level is `info` or more important. -/

namespace EsmCompletion

open CommandLine (terminated)

namespace FileTree

/-- There is a file with some bytes at a location. -/
def Holds (tree : FileTree) (location : Location) (bytes : ByteArray) : Prop :=
  ∃ modified, tree.entryAt? location = some ⟨.file bytes, modified⟩

variable {tree : FileTree} {location : Location} {bytes : ByteArray}

theorem Holds.append (h : tree.Holds location bytes) (text : String) :
    (tree.append location text).Holds location (bytes ++ text.toUTF8) := by
  obtain ⟨modified, he⟩ := h
  refine ⟨{ modified with nanoseconds := modified.nanoseconds + 1 }, ?_⟩
  rw [entryAt?_append he, if_pos rfl]

end FileTree

namespace Log

variable {tree : FileTree} {location : Location} {bytes : ByteArray}

/-- The text that some events add to a log, by the filter of the log. -/
def addedText (filter : Filter) (events : List Event) : String :=
  terminated ((events.filter filter.passes).map Event.line)

theorem addedText_cons (filter : Filter) (event : Event) (rest : List Event) :
    addedText filter (event :: rest) =
      (if filter.passes event then event.line ++ "\n" else "") ++ addedText filter rest := by
  unfold addedText
  by_cases h : filter.passes event = true <;> simp [h, terminated]

theorem Journal.holds_write (h : tree.Holds location bytes) (filter : Filter) (event : Event) :
    ((Journal.mk filter location).write tree event).Holds location
      (bytes ++ (if filter.passes event then event.line ++ "\n" else "").toUTF8) := by
  unfold write
  simp only
  split
  · exact h.append _
  · rw [show ("" : String).toUTF8 = ByteArray.empty from rfl, ByteArray.append_empty]
    exact h

/-- A log that is a file grows by the lines of the events that pass. -/
theorem Journal.holds_writeAll (h : tree.Holds location bytes) (filter : Filter)
    (events : List Event) :
    ((Journal.mk filter location).writeAll tree events).Holds location
      (bytes ++ (addedText filter events).toUTF8) := by
  induction events generalizing tree bytes with
  | nil =>
    rw [show (addedText filter []).toUTF8 = ByteArray.empty from rfl, ByteArray.append_empty]
    exact h
  | cons event rest ih =>
    have hrest := ih (holds_write h filter event)
    rw [ByteArray.append_assoc] at hrest
    rw [addedText_cons, String.toUTF8, String.toByteArray_append]
    exact hrest

/-- By default the levels from `info` on are logged. -/
theorem passes_default (event : Event) :
    Filter.default.passes event = decide (event.level.rank ≤ Level.info.rank) := by
  have hspeaks : ({ Directive.everything with limit := Level.info.rank } :
      Directive).speaksOf event = true := by
    simp [Directive.speaksOf, Directive.everything]
  simp [Filter.passes, Filter.deciding?, Filter.default, hspeaks]

end Log

end EsmCompletion
