import EsmCompletion.Exports

/-! # What the statements of a module export

The functions and variables that a module declares where it exports them, in source order, are its
items. A walk over the statements inserts one entry for each item, unless it comes to a variable that
is bound by a pattern; so the names of the exports are the names of the items in the order in which
they first come, and the last item of a name says what is suggested for it. -/

namespace EsmCompletion.Exports

open Script

/-- A name that is declared where it is exported, with the parameters if it is suggested as a call. -/
structure Item where
  name : String
  parameters : Option (List Parameter)
  deriving DecidableEq, Repr

/-- A variable of a declaration, which is called if it starts as an arrow function. -/
def Item.ofDeclarator? : Declarator → Option Item
  | ⟨.name name, some (.arrow parameters)⟩ => some ⟨name, some parameters⟩
  | ⟨.name name, _⟩ => some ⟨name, none⟩
  | ⟨.destructuring _, _⟩ => none

def Item.ofDeclaration : Declaration → List Item
  | .function (some name) parameters => [⟨name, some parameters⟩]
  | .variableList declarators => declarators.filterMap ofDeclarator?
  | _ => []

def Item.ofStatement : Statement → List Item
  | .exportDeclaration declaration => ofDeclaration declaration
  | _ => []

/-- All that a module declares where it exports it, in source order. -/
def items (program : Program) : List Item := program.body.flatMap Item.ofStatement

/-- What is suggested for an item. A call shows the parameters that have a name to show. -/
def Item.suggestion (moduleName : String) (item : Item) : Suggestion :=
  match item.parameters with
  | some parameters => .callable moduleName item.name (parameters.filterMap parameterName?)
  | none => .value moduleName item.name

def Item.entry (moduleName : String) (item : Item) : String × Suggestion :=
  (item.name, item.suggestion moduleName)

/-- Whether a module exports a variable that is not bound by a plain name. -/
def ExportsPattern (program : Program) : Prop :=
  ∃ declarators, .exportDeclaration (.variableList declarators) ∈ program.body ∧
    ∃ declarator ∈ declarators, ∀ name, declarator.binding ≠ .name name

theorem parameterName?_eq_some_iff {parameter : Parameter} {name : String} :
    parameterName? parameter = some name ↔
      parameter = .required (.name name) ∨ parameter = .defaulted (.name name) := by
  cases parameter with
  | required binding | defaulted binding | rest binding =>
    cases binding <;> simp [parameterName?]

/-! ## The walk -/

variable (moduleName : String)

/-- Variables are added one for one, if none of them is bound by a pattern. -/
theorem addVariables_eq (declarators : List Declarator) (exports : ExportMap) :
    addVariables moduleName declarators exports =
      if declarators.any (·.binding.isDestructuring) then none
      else some (exports.insertAll
        ((declarators.filterMap Item.ofDeclarator?).map (Item.entry moduleName))) := by
  induction declarators generalizing exports with
  | nil => rfl
  | cons declarator rest ih =>
    obtain ⟨binding, initializer⟩ := declarator
    cases binding with
    | destructuring names => rfl
    | name name =>
      have hentry : ∃ item, Item.ofDeclarator? ⟨.name name, initializer⟩ = some item ∧
          item.entry moduleName = (name, ofVariable moduleName name initializer) := by
        rcases initializer with _ | _ | _ <;> exact ⟨_, rfl, rfl⟩
      obtain ⟨item, hitem, hentry⟩ := hentry
      rw [addVariables, ih]
      simp only [List.any_cons, Binding.isDestructuring, Bool.false_or,
        List.filterMap_cons_some hitem, List.map_cons, hentry]
      rfl

/-- Whether a statement exports a variable that is bound by a pattern. -/
def exportsPattern : Statement → Bool
  | .exportDeclaration (.variableList declarators) =>
    declarators.any (·.binding.isDestructuring)
  | _ => false

theorem addStatement_eq (statement : Statement) (exports : ExportMap) :
    addStatement moduleName statement exports =
      if exportsPattern statement then none
      else some (exports.insertAll ((Item.ofStatement statement).map (Item.entry moduleName))) := by
  cases statement with
  | exportDeclaration declaration =>
    cases declaration with
    | variableList declarators => exact addVariables_eq moduleName declarators exports
    | function name parameters => cases name <;> rfl
    | classLike | typeLike => rfl
  | exportNames | exportAll | exportDefault | other => rfl

theorem addStatements_eq (body : List Statement) (exports : ExportMap) :
    addStatements moduleName body exports =
      if body.any exportsPattern then none
      else some (exports.insertAll
        ((body.flatMap Item.ofStatement).map (Item.entry moduleName))) := by
  induction body generalizing exports with
  | nil => rfl
  | cons statement rest ih =>
    rw [addStatements, addStatement_eq]
    by_cases h : exportsPattern statement = true
    · simp [h]
    · simp [h, ih, OrderedMap.insertAll_append]

theorem any_exportsPattern_iff (program : Program) :
    program.body.any exportsPattern = true ↔ ExportsPattern program := by
  have hpattern (binding : Binding) :
      binding.isDestructuring = true ↔ ∀ name, binding ≠ .name name := by
    cases binding <;> simp [Binding.isDestructuring]
  rw [List.any_eq_true]
  constructor
  · rintro ⟨statement, hm, hp⟩
    unfold exportsPattern at hp
    split at hp
    · rename_i declarators
      obtain ⟨declarator, hd, hb⟩ := List.any_eq_true.1 hp
      exact ⟨declarators, hm, declarator, hd, (hpattern _).1 hb⟩
    · cases hp
  · rintro ⟨declarators, hm, declarator, hd, hb⟩
    exact ⟨_, hm, List.any_eq_true.2 ⟨declarator, hd, (hpattern _).2 hb⟩⟩

theorem ofProgram?_eq (program : Program) :
    ofProgram? moduleName program =
      if program.body.any exportsPattern then none
      else some (.ofList ((items program).map (Item.entry moduleName))) :=
  addStatements_eq moduleName program.body .empty

/-- What a source exports are the items of the module that it writes. -/
theorem exists_items_of_exportsOf {source : String} {exports : ExportMap}
    (h : exportsOf source moduleName = .ok exports) :
    ∃ program, Program.parse? source = some program ∧
      ∀ entry ∈ exports.entries, ∃ item ∈ items program, item.entry moduleName = entry := by
  unfold exportsOf at h
  split at h
  · cases h
  · rename_i program hparse
    rw [ofProgram?_eq] at h
    split at h
    · cases h
    · rename_i he
      obtain rfl := Except.ok.inj h
      split at he
      · cases he
      · obtain rfl := Option.some.inj he
        refine ⟨program, hparse, fun entry hm => ?_⟩
        rcases OrderedMap.mem_insertAll _ hm with hm | hm
        · cases hm
        · exact List.mem_map.1 hm

theorem keys_ofItems (items : List Item) :
    (OrderedMap.ofList (items.map (Item.entry moduleName))).keys =
      (items.map Item.name).eraseDups := by
  rw [OrderedMap.keys_ofList, List.map_map]
  rfl

theorem get?_ofItems (items : List Item) (name : String) :
    (OrderedMap.ofList (items.map (Item.entry moduleName))).get? name =
      ((items.filter (·.name = name)).getLast?).map (Item.suggestion moduleName) := by
  rw [OrderedMap.get?_ofList, List.filter_map, List.getLast?_map, Option.map_map]
  rfl

/-- The exports of a module are those of its items. There are none, with a fault that says so,
exactly if a variable is exported that is bound by a pattern. Otherwise the names are those of the
items, each at the place where it first comes, and for each of them the last item of that name is
suggested; a call shows the parameters that are plain names, with or without a default, and no
other. -/
theorem exports_are_items (moduleName : String) (program : Program) :
    (ofProgram? moduleName program = none ↔ ExportsPattern program) ∧
      (∀ source, Program.parse? source = some program →
        (exportsOf source moduleName = .error (.destructuredExport moduleName) ↔
          ExportsPattern program)) ∧
      (∀ exports, ofProgram? moduleName program = some exports →
        exports.keys = ((items program).map Item.name).eraseDups ∧
          ∀ name, exports.get? name =
            (((items program).filter (·.name = name)).getLast?).map
              (Item.suggestion moduleName)) ∧
      ∀ parameter name, parameterName? parameter = some name ↔
        parameter = .required (.name name) ∨ parameter = .defaulted (.name name) := by
  have hnone : ofProgram? moduleName program = none ↔ ExportsPattern program := by
    rw [ofProgram?_eq, ← any_exportsPattern_iff]
    split <;> simp_all
  refine ⟨hnone, ?_, ?_, fun _ _ => parameterName?_eq_some_iff⟩
  · intro source hs
    rw [← hnone, exportsOf, hs]
    simp only
    cases ofProgram? moduleName program <;> simp
  · intro exports he
    rw [ofProgram?_eq] at he
    split at he
    · cases he
    · obtain rfl := Option.some.inj he
      exact ⟨keys_ofItems moduleName _, get?_ofItems moduleName _⟩

/-- A function with a pattern and a rest parameter, and a variable that takes its name later. -/
def declaredTwice : Program :=
  ⟨[.exportDeclaration (.function (some "f")
      [.required (.name "a"), .defaulted (.name "b"), .required (.destructuring ["c"]),
        .rest (.name "d")]),
    .exportDeclaration (.variableList
      [⟨.name "x", some .other⟩, ⟨.name "f", some (.arrow [.defaulted (.name "y")])⟩])]⟩

/-- The function keeps its place and is suggested as the variable; and a source that exports a pattern
is refused as a whole. -/
theorem exports_of_declaredTwice :
    (∃ exports, ofProgram? "m.js" declaredTwice = some exports ∧ exports.keys = ["f", "x"] ∧
        exports.get? "f" = some ⟨"f(y)\tm.js", "f($\x7b1:y\x7d)"⟩ ∧
        exports.get? "x" = some ⟨"x\tm.js", "x"⟩) ∧
      exportsOf "export let x = 1, {a} = b;" "m.js" = .error (.destructuredExport "m.js") := by
  constructor
  · obtain ⟨exports, he⟩ : ∃ exports, ofProgram? "m.js" declaredTwice = some exports := ⟨_, rfl⟩
    obtain ⟨hkeys, hget⟩ := (exports_are_items "m.js" declaredTwice).2.2.1 exports he
    exact ⟨exports, he, hkeys.trans (by decide), (hget "f").trans (by decide),
      (hget "x").trans (by decide)⟩
  · have hp : Program.parse? "export let x = 1, {a} = b;" = some
        ⟨[.exportDeclaration (.variableList
          [⟨.name "x", some .other⟩, ⟨.destructuring ["a"], some .other⟩])]⟩ := by
      decide +kernel
    refine ((exports_are_items "m.js" _).2.1 _ hp).2 ⟨_, List.mem_cons_self .., ?_⟩
    exact ⟨⟨.destructuring ["a"], some .other⟩, by simp, by simp⟩

end EsmCompletion.Exports
