import EsmCompletion.Configuration
import EsmCompletion.Proofs.FileTree.Lookup
import EsmCompletion.Proofs.Json.RoundTrip

/-! # Layouts of a configuration

A configuration may be laid out in its file in many ways: its fields may come in any order, those that
have their defaults may be left out, members with other names may stand between them, and there is white
space everywhere. The names keep the fields apart, so each layout is loaded as the configuration that it
was made from. -/

namespace EsmCompletion

namespace Json

variable {members : List (String × Json)} {name : String} {value : Json}

/-! ## Members under a name -/

theorem single?_of_mem (hone : (members.map Prod.fst).count name ≤ 1)
    (hm : (name, value) ∈ members) : single? members name = some (some value) := by
  obtain ⟨before, after, rfl⟩ := List.append_of_mem hm
  have hothers : name ∉ before.map Prod.fst ∧ name ∉ after.map Prod.fst := by
    simp only [List.map_append, List.map_cons, List.count_append, List.count_cons_self] at hone
    rw [← List.count_eq_zero, ← List.count_eq_zero]
    omega
  have hnone {others : List (String × Json)} (ho : name ∉ others.map Prod.fst) :
      others.filter (·.1 = name) = [] :=
    List.filter_eq_nil_iff.2 fun member hm he =>
      ho (List.mem_map.2 ⟨member, hm, of_decide_eq_true he⟩)
  simp [single?, List.filter_append, hnone hothers.1, hnone hothers.2]

theorem single?_of_not_mem (h : name ∉ members.map Prod.fst) :
    single? members name = some none := by
  have hnone : members.filter (·.1 = name) = [] :=
    List.filter_eq_nil_iff.2 fun member hm he =>
      h (List.mem_map.2 ⟨member, hm, of_decide_eq_true he⟩)
  rw [single?, hnone]

/-- The names of members are read as they are written. -/
theorem fields?_object (names : List String) (members : List (String × Json)) :
    fields? names (.object (members.map fun member => (unitsOf member.1, member.2))) =
      names.mapM (single? members) := by
  have hdecode : (members.map fun member => (unitsOf member.1, member.2)).mapM
      (fun member => (decodeUnits? member.1).map fun key => (String.ofList key, member.2)) =
        some members := by
    rw [List.mapM_map]
    have hcomp : ((fun member : List StringUnit × Json =>
        (decodeUnits? member.1).map fun key => (String.ofList key, member.2)) ∘
          fun member : String × Json => (unitsOf member.1, member.2)) = fun member => pure member := by
      funext member
      simp [decodeUnits?_unitsOf]
    rw [hcomp, List.mapM_pure]
    simp
  rw [fields?, hdecode]
  rfl

end Json

namespace Configuration

/-! ## Fields -/

inductive Field where
  | importLookahead
  | sourceExtensions
  | logFile

def Field.name : Field → String
  | importLookahead => "importLookahead"
  | sourceExtensions => "sourceExtensions"
  | logFile => "logFile"

/-- The value that a field of a configuration is written as. -/
def Field.value (configuration : Configuration) : Field → Json
  | importLookahead => .number (toString configuration.importLookahead).toList
  | sourceExtensions => .array (configuration.sourceExtensions.map Json.ofText)
  | logFile =>
    match configuration.logFile with
    | none => .null
    | some path => Json.ofText path.text

/-- A field that need not be written. -/
def Field.IsDefault (configuration : Configuration) : Field → Prop
  | importLookahead => configuration.importLookahead = 500
  | sourceExtensions => configuration.sourceExtensions = [".js", ".mjs"]
  | logFile => configuration.logFile = none

/-- The members of an object that a configuration may be written as. They may come in any order. A
field comes at most once, with its value, and is left out only if it has its default; a member with
another name may have any value. -/
structure IsWrittenAs (configuration : Configuration) (members : List (String × Json)) : Prop where
  value : ∀ field : Field, ∀ value, (field.name, value) ∈ members →
    value = field.value configuration
  once : ∀ field : Field, (members.map Prod.fst).count field.name ≤ 1
  default : ∀ field : Field, field.name ∉ members.map Prod.fst → field.IsDefault configuration

variable {configuration : Configuration} {members : List (String × Json)}

/-- A field is found with its value, or it is not there and has its default. -/
theorem IsWrittenAs.exists_single? (h : configuration.IsWrittenAs members) (field : Field) :
    ∃ found, Json.single? members field.name = some found ∧
      (found = some (field.value configuration) ∨ found = none ∧ field.IsDefault configuration) := by
  by_cases hm : field.name ∈ members.map Prod.fst
  · obtain ⟨⟨name, value⟩, hmember, rfl⟩ := List.mem_map.1 hm
    obtain rfl := h.value field value hmember
    exact ⟨_, Json.single?_of_mem (h.once field) hmember, .inl rfl⟩
  · exact ⟨none, Json.single?_of_not_mem hm, .inr ⟨rfl, h.default field hm⟩⟩

/-- What is read for a field, whether it was written or left out. -/
theorem member_of_found {α : Type} {default actual : α} {read? : Json → Option α} {written : Json}
    {found : Option Json} (hread : read? written = some actual)
    (h : found = some written ∨ found = none ∧ actual = default) :
    member default read? found = some actual := by
  rcases h with rfl | ⟨rfl, rfl⟩
  · exact hread
  · rfl

theorem natural?_value (h : configuration.importLookahead < wordBound) :
    Json.natural? (Field.importLookahead.value configuration) =
      some configuration.importLookahead := decimalWord?_toString h

theorem listOf?_value (configuration : Configuration) :
    Json.listOf? Json.text? (Field.sourceExtensions.value configuration) =
      some configuration.sourceExtensions := by
  rw [Field.value, Json.listOf?_array Json.text?_ofText, List.map_id']

theorem logFile?_value (configuration : Configuration) :
    logFile? (Field.logFile.value configuration) = some configuration.logFile := by
  rw [Field.value]
  cases configuration.logFile with
  | none => rfl
  | some path =>
    show (Json.text? (Json.ofText path.text)).map (fun text => some (⟨text⟩ : Path)) = _
    rw [Json.text?_ofText]
    rfl

/-- The object is read as the configuration that its members write. -/
theorem ofJson?_of_isWrittenAs (hword : configuration.importLookahead < wordBound)
    (h : configuration.IsWrittenAs members) :
    ofJson? (.object (members.map fun member => (Json.unitsOf member.1, member.2))) =
      some configuration := by
  obtain ⟨lookahead, hlookahead, hl⟩ := h.exists_single? .importLookahead
  obtain ⟨extensions, hextensions, he⟩ := h.exists_single? .sourceExtensions
  obtain ⟨logFile, hlogFile, hf⟩ := h.exists_single? .logFile
  have hfields : Json.fields? memberNames
      (.object (members.map fun member => (Json.unitsOf member.1, member.2))) =
        some [lookahead, extensions, logFile] := by
    rw [Json.fields?_object]
    simp only [Field.name] at hlookahead hextensions hlogFile
    simp [memberNames, hlookahead, hextensions, hlogFile]
  have hreadLookahead : member Imports.defaultLookahead Json.natural? lookahead =
      some configuration.importLookahead := member_of_found (natural?_value hword) hl
  have hreadExtensions : member [".js", ".mjs"] (Json.listOf? Json.text?) extensions =
      some configuration.sourceExtensions := member_of_found (listOf?_value configuration) he
  have hreadLogFile : member none logFile? logFile = some configuration.logFile :=
    member_of_found (logFile?_value configuration) hf
  rw [ofJson?, hfields]
  simp only [hreadLookahead, hreadExtensions, hreadLogFile]
  rfl

/-- A configuration survives its layout. Its fields may be written in any order, those that have their
defaults may be left out, members with other names and any values may be written between them, and the
object may be spelled in any way that the grammar allows, with white space before and behind every
token: what is loaded from a readable file with such a text is the configuration itself. -/
theorem survives_any_layout {configuration : Configuration}
    (hword : configuration.importLookahead < wordBound) {members : List (String × Json)}
    (hm : configuration.IsWrittenAs members) {before written after : List Char}
    (hb : Json.IsGap before)
    (hw : Json.Spells written
      (.object (members.map fun member => (Json.unitsOf member.1, member.2))))
    (ha : Json.IsGap after) {tree : FileTree} {root : Path}
    (ht : tree.readText (fileIn root) = .ok (String.ofList (before ++ (written ++ after)))) :
    load tree root = .ok configuration := by
  obtain ⟨modified, bytes, hfind, -⟩ := FileTree.readText_eq_ok.1 ht
  have hparse : parse? (String.ofList (before ++ (written ++ after))) = some configuration := by
    rw [parse?, Json.parse?_of_spells hb hw ha, Option.bind_some, ofJson?_of_isWrittenAs hword hm]
  unfold load
  simp only [hfind, ht, hparse]

open Json in
/-- A layout with a member that is no field, an extension list that is left out, and a log file whose
name is escaped. -/
def oddLayout : List Member :=
  [⟨['\n'], "x".toList.flatMap escape, unitsOf "x", [],
      ⟨[' '], "[-1.5e+3 , \x7b\t\x7d]".toList, [],
        .array [.number "-1.5e+3".toList, .object []]⟩⟩,
    ⟨[' '], "logFile".toList.flatMap escape, unitsOf "logFile", [' '],
      ⟨[' '], writeString "a\tb", [], ofText "a\tb"⟩⟩,
    ⟨[], "importLookahead".toList.flatMap escape, unitsOf "importLookahead", [],
      ⟨[], "2000".toList, [' '], .number "2000".toList⟩⟩]

open Json in
theorem spells_oddLayout :
    Spells ('\x7b' :: ([] ++ ([','].intercalate (oddLayout.map Member.written) ++ ['\x7d'])))
      (.object (oddLayout.map Member.entry)) := by
  have hnumber : Spells "-1.5e+3".toList (.number "-1.5e+3".toList) :=
    .number ⟨['-'], by decide, ['1'], ['.', '5'], ['e', '+', '3'], .inr (by decide),
      .inr ⟨['5'], by decide, rfl⟩,
      .inr ⟨'e', by decide, ['+'], by decide, ['3'], by decide, rfl⟩, rfl⟩
  have hempty : Spells "\x7b\t\x7d".toList (.object []) :=
    @Spells.object ['\t'] [] (by decide) (by simp) (by simp)
  have harray : Spells "[-1.5e+3 , \x7b\t\x7d]".toList
      (.array [.number "-1.5e+3".toList, .object []]) :=
    @Spells.array [] [⟨[], "-1.5e+3".toList, [' '], .number "-1.5e+3".toList⟩,
        ⟨[' '], "\x7b\t\x7d".toList, [], .object []⟩] isGap_nil
      (by
        simp only [List.forall_mem_cons]
        exact ⟨⟨by decide, by decide⟩, ⟨by decide, by decide⟩, by simp⟩)
      (by
        simp only [List.forall_mem_cons]
        exact ⟨hnumber, hempty, by simp⟩)
  have hlookahead : Spells "2000".toList (.number "2000".toList) :=
    .number ⟨[], by decide, "2000".toList, [], [], .inr (by decide), .inl rfl, .inl rfl, rfl⟩
  refine .object isGap_nil ?_ ?_
  · simp only [oddLayout, List.forall_mem_cons]
    refine ⟨⟨?_, spellsUnits_escape _, ?_, ?_, ?_⟩, ⟨?_, spellsUnits_escape _, ?_, ?_, ?_⟩,
      ⟨?_, spellsUnits_escape _, ?_, ?_, ?_⟩, by simp⟩ <;> decide
  · simp only [oddLayout, List.forall_mem_cons]
    exact ⟨harray, spells_writeString _, hlookahead, by simp⟩

theorem isWrittenAs_odd :
    ({ importLookahead := 2000, logFile := some ⟨"a\tb"⟩ } : Configuration).IsWrittenAs
      [("x", .array [.number "-1.5e+3".toList, .object []]), ("logFile", Json.ofText "a\tb"),
        ("importLookahead", .number "2000".toList)] := by
  refine ⟨?_, ?_, ?_⟩
  · rintro (_ | _ | _) value hm
    · obtain rfl : value = .number "2000".toList := by simpa [Field.name] using hm
      rw [Field.value, toList_toString]
      rfl
    · simp [Field.name] at hm
    · obtain rfl : value = Json.ofText "a\tb" := by simpa [Field.name] using hm
      rfl
  · rintro (_ | _ | _) <;> decide
  · rintro (_ | _ | _) hmissing
    · exact absurd (by decide) hmissing
    · rfl
    · exact absurd (by decide) hmissing

/-- The layout as it stands in a file. -/
theorem survives_oddLayout :
    let text := "\x7b\n\"x\": [-1.5e+3 , \x7b\t\x7d], \"logFile\" : \"a\\tb\"," ++
      "\"importLookahead\":2000 \x7d\n"
    let tree := FileTree.empty.set [".resolvejsrc.json"] ⟨.file text.toUTF8, ⟨5, 0⟩⟩
    tree.readText (fileIn ⟨"/"⟩) = .ok text ∧
      load tree ⟨"/"⟩ = .ok { importLookahead := 2000, logFile := some ⟨"a\tb"⟩ } := by
  intro text tree
  have hread : tree.readText (fileIn ⟨"/"⟩) = .ok text :=
    FileTree.readText_eq_ok.2 ⟨⟨5, 0⟩, text.toUTF8, rfl, fromUTF8?_toUTF8 text⟩
  have hload := @survives_any_layout _ (by decide) _ isWrittenAs_odd [] _ ['\n'] Json.isGap_nil
    spells_oddLayout (by decide) tree ⟨"/"⟩ hread
  exact ⟨hread, hload⟩

end Configuration

end EsmCompletion
