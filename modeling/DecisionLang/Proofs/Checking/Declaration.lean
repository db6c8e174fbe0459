import DecisionLang.Checking.Declaration
import DecisionLang.Proofs.Checking.Coverage
import DecisionLang.Proofs.Checking.Expression
import DecisionLang.Proofs.Tree.WellFormed
import Mathlib.Data.List.Flatten

/-!
# Every declaration is checked soundly

Checking a declaration records findings for what `Node.checked` lists and nothing else, and without
errors all of it is typed. Main statement: `Check.sound_roots`.
-/

namespace DecisionLang

namespace Node

def keys (node : Node) : List FindingKey := node.recorded.flatMap FindingKey.all

theorem keys_expression (item : Expr) : (Node.expression item).keys = item.keys := by
  unfold keys Expr.keys
  rw [recorded_expression, List.flatMap_map]

theorem keys_of_isTyped (node : Node) (h : node.isTyped = false) :
    node.keys = node.children.flatMap keys := by
  unfold keys
  rw [recorded_eq node (by cases node <;> first | rfl | cases h), List.flatMap_append,
    List.flatMap_assoc]
  cases node <;> first | rfl | cases h

theorem keys_definition (item : Definition) :
    (definition item).keys = FindingKey.all item.id ++ item.default.toList.flatMap Expr.keys := by
  unfold keys
  rw [recorded_eq _ rfl, children, List.flatMap_map, List.flatMap_append, List.flatMap_assoc]
  congr 1
  exact List.flatMap_congr fun value _ => keys_expression value

theorem subperm_keys_definition (item : Definition) :
    (item.default.toList.flatMap Expr.keys ++ [(FindingKind.definition, item.id)]).Subperm
      (definition item).keys := by
  rw [keys_definition]
  refine (List.perm_append_singleton _ _).subperm.trans (List.Sublist.subperm ?_)
  exact .cons _ (.cons _ (List.Sublist.refl _))

theorem keys_table (decl : TableDecl) :
    (table decl).keys = decl.rows.flatMap fun row => row.values.flatMap Expr.keys := by
  unfold keys
  rw [recorded_eq _ rfl, List.flatMap_append, List.flatMap_assoc]
  apply (collect_table keys_of_isTyped decl).trans
  simp only [keys_expression]

/-- Everything that is checked along with a node is typed. -/
def AllTyped (env : TypeEnv) (final : Findings) (node : Node) : Prop :=
  ∀ item ∈ node.checked, item.Regular → item.Typed env final

variable {env : TypeEnv} {final : Findings}

theorem allTyped_expression {item : Expr} (h : item.AllTyped env final) :
    (Node.expression item).AllTyped env final := by
  intro node hnode hregular
  rw [checked_expression] at hnode
  obtain ⟨found, hfound, rfl⟩ := List.mem_map.1 hnode
  exact h found hfound hregular

theorem allTyped_definition {item : Definition}
    (hdeclares : final.Declares env item.id item.type item.default)
    (hdefault : ∀ value ∈ item.default, value.AllTyped env final) :
    (definition item).AllTyped env final := by
  intro node hnode hregular
  rw [checked_eq _ rfl, children, List.flatMap_map] at hnode
  rcases List.mem_append.1 hnode with hnode | hnode
  · obtain rfl := List.mem_singleton.1 hnode
    exact hdeclares
  · obtain ⟨value, hvalue, hnode⟩ := List.mem_flatMap.1 hnode
    exact allTyped_expression (hdefault value (Option.mem_toList.1 hvalue)) node hnode hregular

theorem allTyped_function {decl : FunctionDecl}
    (hparameters : ∀ item ∈ decl.parameterDefinitions, (definition item).AllTyped env final)
    (hresults : ∀ item ∈ decl.resultDefinitions, (definition item).AllTyped env final)
    (hlines : ∀ line ∈ decl.expressions, (Node.expression line).AllTyped env final) :
    (function decl).AllTyped env final := by
  intro node hnode hregular
  rw [collect_function checked_of_isTyped] at hnode
  rcases List.mem_append.1 hnode with hnode | hnode
  · rcases List.mem_append.1 hnode with hnode | hnode
    · obtain ⟨item, hitem, hnode⟩ := List.mem_flatMap.1 hnode
      exact hparameters item hitem node hnode hregular
    · obtain ⟨item, hitem, hnode⟩ := List.mem_flatMap.1 hnode
      exact hresults item hitem node hnode hregular
  · obtain ⟨line, hline, hnode⟩ := List.mem_flatMap.1 hnode
    exact hlines line hline node hnode hregular

theorem allTyped_record {decl : RecordDecl}
    (h : ∀ item ∈ decl.members, (definition item).AllTyped env final) :
    (record decl).AllTyped env final := by
  intro node hnode hregular
  rw [collect_record checked_of_isTyped] at hnode
  obtain ⟨item, hitem, hnode⟩ := List.mem_flatMap.1 hnode
  exact h item hitem node hnode hregular

theorem allTyped_table {decl : TableDecl}
    (hrows : (table decl).Regular → (table decl).Typed env final)
    (hvalues : ∀ row ∈ decl.rows, ∀ value ∈ row.values,
      (Node.expression value).AllTyped env final) : (table decl).AllTyped env final := by
  intro node hnode hregular
  rw [checked_eq _ rfl, collect_table checked_of_isTyped] at hnode
  rcases List.mem_append.1 hnode with hnode | hnode
  · obtain rfl := List.mem_singleton.1 hnode
    exact hrows hregular
  · obtain ⟨row, hrow, hnode⟩ := List.mem_flatMap.1 hnode
    obtain ⟨value, hvalue, hnode⟩ := List.mem_flatMap.1 hnode
    exact hvalues row hrow value hvalue node hnode hregular

theorem allTyped_assignments {role : BlockRole} {block : AssignmentBlock}
    (h : ∀ line ∈ block.assignments, (expression line).AllTyped env final) :
    (assignments role block).AllTyped env final := by
  intro node hnode hregular
  rw [checked_of_isTyped _ rfl, children, List.flatMap_map] at hnode
  obtain ⟨line, hline, hnode⟩ := List.mem_flatMap.1 hnode
  exact h line hline node hnode hregular

theorem allTyped_validationTable {item : ValidationTable}
    (h : ∀ cells ∈ item.rows, ∀ value ∈ cells.values, (expression value).AllTyped env final) :
    (validationTable item).AllTyped env final := by
  intro node hnode hregular
  rw [checked_of_isTyped _ rfl, children, collect_rows checked_of_isTyped] at hnode
  obtain ⟨cells, hcells, hnode⟩ := List.mem_flatMap.1 hnode
  obtain ⟨value, hvalue, hnode⟩ := List.mem_flatMap.1 hnode
  exact h cells hcells value hvalue node hnode hregular

theorem AllTyped.everywhere {node : Node} (h : node.AllTyped env final)
    (hnode : node.expression? = none) (hbody : ∀ reference lines, node ≠ .body reference lines)
    (hregular : node.AllRegular) (hstray : node.Everywhere fun item => item.strayCases = []) :
    node.Everywhere (Typed env final) := by
  intro item hitem
  by_cases htyped : item.isTyped = true
  · refine h item ?_ (hregular item hitem)
    exact mem_checked_of_mem_walk hbody (by rw [hnode]; rfl) hstray hregular hitem htyped
  · cases item <;> first | exact absurd rfl htyped | trivial

end Node

/-- Blocks of a scenario that are about the function under test. -/
def ScenarioDecl.blocks (decl : ScenarioDecl) : List Node :=
  (decl.parameters.map (Node.assignments .parameters)).toList ++
    (decl.results.map (Node.assignments .results)).toList ++
    (decl.validationTable.map Node.validationTable).toList

theorem ScenarioDecl.mem_children_of_mem_blocks {decl : ScenarioDecl} {block : Node}
    (h : block ∈ decl.blocks) : block ∈ (Node.scenario decl).children := by
  simp only [blocks, Node.children, Node.ofScenario, List.mem_append] at h ⊢
  tauto

theorem ScenarioDecl.expression?_of_mem_blocks {decl : ScenarioDecl} {block : Node}
    (h : block ∈ decl.blocks) : block.expression? = none := by
  simp only [blocks, List.mem_append, Option.mem_toList, Option.map_eq_some_iff] at h
  rcases h with (⟨_, _, rfl⟩ | ⟨_, _, rfl⟩) | ⟨_, _, rfl⟩ <;> rfl

namespace Check

variable {env : TypeEnv}

abbrev SoundFor (env : TypeEnv) (action : Check Unit) (node : Node) : Prop :=
  Sound action node.keys fun final _ => env.ColumnsResolve → node.AllTyped env final

theorem sound_line (line : Expr) :
    SoundFor env (discard (expression env line)) (.expression line) := by
  unfold SoundFor
  rw [Node.keys_expression]
  apply (checked_expression env line).discard.weaken
  rintro final _ ⟨type?, hfound⟩ hcolumns
  obtain ⟨_, _, _, hall⟩ := hfound hcolumns
  exact Node.allTyped_expression hall

theorem sound_definition (origin : Origin) (item : Definition) :
    SoundFor env (definition env origin item) (.definition item) := by
  refine (sound_declaration (fun value _ => checked_expression env value) _ origin).mono
    (Node.subperm_keys_definition item) ?_
  intro final _ hdeclared hcolumns
  obtain ⟨hdeclares, hdefault⟩ := hdeclared hcolumns
  exact Node.allTyped_definition hdeclares hdefault

theorem sound_function (decl : FunctionDecl) :
    SoundFor env (function env decl) (.function decl) := by
  unfold SoundFor
  rw [Node.collect_function Node.keys_of_isTyped, List.append_assoc]
  apply sound_inScope
  refine (sound_forM fun item _ => sound_definition .parameters item).bind fun _ => ?_
  refine (sound_forM fun item _ => sound_definition .results item).bind fun _ => ?_
  refine (sound_forM fun line _ => sound_line line).weaken ?_
  intro final _ hlines hresults hparameters hcolumns
  exact Node.allTyped_function (fun item hitem => hparameters item hitem hcolumns)
    (fun item hitem => hresults item hitem hcolumns) fun line hline => hlines line hline hcolumns

theorem sound_record (decl : RecordDecl) : SoundFor env (record env decl) (.record decl) := by
  have hmember : ∀ member ∈ decl.members,
      SoundFor env (recordMember env decl member) (.definition member) := by
    intro member _
    unfold recordMember
    split
    · exact (sound_report _ _).absurd.mono List.nil_subperm fun _ _ h => h
    · exact sound_definition .record member
  unfold SoundFor
  rw [Node.collect_record Node.keys_of_isTyped]
  refine sound_inScope ((sound_forM hmember).weaken fun final _ hmembers hcolumns => ?_)
  exact Node.allTyped_record fun member hitem => hmembers member hitem hcolumns

theorem sound_enumeration (decl : EnumDecl) :
    Sound (enumeration decl) [] fun _ _ => True := by
  have hrepeated : Sound ((repeatedValues [] decl.members).forM fun repeated =>
      report (.duplicateEnumValue repeated.1) repeated.2) [] fun _ _ => True :=
    sound_forM_keyless fun _ _ => (sound_report _ _).absurd
  unfold enumeration
  split
  · exact (sound_fail _ _).bind fun _ => hrepeated.weaken fun _ _ _ _ => trivial
  · exact hrepeated

/-! ### Tables -/

/-- A value of a row goes with the type of its column, as far as that is known. -/
def CellTyped (env : TypeEnv) (final : Findings) (value : Expr) (type? : Option Ty) : Prop :=
  (∀ wanted, type? = some wanted → final.Stores env wanted value) ∧ value.AllTyped env final

theorem sound_cells (values : List Expr) (columnTypes : List (Option Ty)) :
    Sound ((values.zip columnTypes).forM fun (value, type?) =>
        (partOf env value).checkStored env type?)
      ((values.take columnTypes.length).flatMap Expr.keys) fun final _ =>
        env.ColumnsResolve → List.Forall₂ (CellTyped env final) (values.take columnTypes.length)
          (columnTypes.take values.length) := by
  induction values generalizing columnTypes with
  | nil =>
    rw [List.take_nil]
    exact .pure fun _ _ => .nil
  | cons value values ih =>
    cases columnTypes with
    | nil => exact .pure fun _ _ => .nil
    | cons type? columnTypes =>
      apply (sound_checkStored (checked_expression env value) type?).bind
      intro _
      exact (ih columnTypes).weaken fun final _ htail hhead hcolumns =>
        .cons (hhead hcolumns) (htail hcolumns)

theorem sound_row (columnTypes : List (Option Ty)) (item : TableRow) :
    Sound (row env columnTypes item) (item.values.flatMap Expr.keys) fun final _ =>
      env.ColumnsResolve → item.values.length = columnTypes.length →
        List.Forall₂ (CellTyped env final) item.values columnTypes := by
  have hkeys : ((item.values.take columnTypes.length).flatMap Expr.keys).Subperm
      (item.values.flatMap Expr.keys) :=
    (List.Sublist.flatMap (List.take_sublist _ _) _).subperm
  apply (sound_cells item.values columnTypes).mono hkeys
  intro final _ hcells hcolumns hlength
  have hcells := hcells hcolumns
  rwa [← hlength, List.take_length, hlength, List.take_length] at hcells

theorem sound_rows (columnTypes : List (Option Ty)) (rows : List TableRow) :
    Sound (rows.forM fun item => inScope (row env columnTypes item))
      (rows.flatMap fun item => item.values.flatMap Expr.keys) fun final _ =>
        ∀ item ∈ rows, env.ColumnsResolve → item.values.length = columnTypes.length →
          List.Forall₂ (CellTyped env final) item.values columnTypes :=
  sound_forM fun item _ => sound_inScope (sound_row columnTypes item)

theorem sound_columnHead (item : Column) :
    Sound (columnHead env item) [] fun _ type? =>
      (env.resolve? item.type).isSome = true ∧ type? = env.resolve? item.type := by
  unfold columnHead
  refine sound_reportIf (.pure fun _ hsome => ⟨?_, rfl⟩)
  cases htype : env.resolve? item.type with
  | none => exact absurd (by rw [htype]; rfl) hsome
  | some _ => rfl

theorem typed_of_cells {decl : TableDecl} {final : Findings} {columnTypes : List (Option Ty)}
    (htypes : List.Forall₂ (fun item type? =>
      (env.resolve? item.type).isSome = true ∧ type? = env.resolve? item.type) decl.columns
        columnTypes)
    (hcells : ∀ item ∈ decl.rows, item.values.length = columnTypes.length →
      List.Forall₂ (CellTyped env final) item.values columnTypes)
    (hregular : (Node.table decl).Regular) : (Node.table decl).AllTyped env final := by
  have hrows : ∀ item ∈ decl.rows, List.Forall₂ (CellTyped env final) item.values columnTypes :=
    fun item hitem => hcells item hitem ((hregular.2 item hitem).trans htypes.length_eq)
  refine Node.allTyped_table (fun _ item hitem => ?_) fun item hitem value hvalue => ?_
  · have hcolumns := List.forall₂_iff_get.1 htypes
    refine List.forall₂_iff_get.2 ⟨hregular.2 item hitem, fun index hindex hcolumn => ?_⟩
    obtain ⟨hlength, hcell⟩ := List.forall₂_iff_get.1 (hrows item hitem)
    obtain ⟨hsome, htype⟩ := hcolumns.2 index hcolumn (hlength ▸ hindex)
    obtain ⟨wanted, hwanted⟩ := Option.isSome_iff_exists.1 hsome
    have hstores := (hcell index hindex (hlength ▸ hindex)).1 wanted (htype.trans hwanted)
    exact ⟨wanted, hwanted, hstores⟩
  · have hall := (List.forall₂_and_left _ _).1 ((hrows item hitem).imp fun _ _ h => ⟨h.2, h.1⟩)
    exact Node.allTyped_expression (hall.1 value hvalue)

theorem sound_table (decl : TableDecl) :
    Sound (table env decl) (Node.table decl).keys fun final _ =>
      (∀ item ∈ decl.columns, (env.resolve? item.type).isSome = true) ∧
        (env.ColumnsResolve → (Node.table decl).Regular → (Node.table decl).AllTyped env final) := by
  rw [Node.keys_table]
  unfold table
  split
  · exact (sound_fail _ _).absurd.mono List.nil_subperm fun _ _ h => h
  · next header hheader =>
    have hcolumns : decl.columns = header.columns := by
      unfold TableDecl.columns
      rw [hheader]
      rfl
    rw [hcolumns]
    refine (sound_mapM fun item _ => sound_columnHead item).bind fun columnTypes => ?_
    apply (sound_rows columnTypes decl.rows).weaken
    intro final _ hcells htypes
    refine ⟨((List.forall₂_and_left _ _).1 htypes).1, fun hresolve => ?_⟩
    exact typed_of_cells (hcolumns ▸ htypes) fun item hitem => hcells item hitem hresolve

/-! ### Scenarios -/

theorem sound_declareMembers (decl : FunctionDecl) (role : BlockRole) :
    Sound (declareMembers env decl role) [] fun _ _ => True := by
  apply sound_forM_keyless
  intro item _
  split
  · exact (sound_declare _).discard.weaken fun _ _ _ => trivial
  · exact .pure fun _ => trivial

theorem sound_assignments (decl : FunctionDecl) (role : BlockRole) (block : AssignmentBlock) :
    SoundFor env (assignments env decl role block) (.assignments role block) := by
  unfold SoundFor
  rw [Node.keys_of_isTyped _ rfl, Node.children, List.flatMap_map]
  refine sound_inScope ((sound_declareMembers decl role).bind fun _ => ?_)
  refine (sound_forM fun line _ => sound_line line).weaken fun final _ hlines _ hcolumns => ?_
  exact Node.allTyped_assignments fun line hline => hlines line hline hcolumns

theorem sound_validationHead (item : ValidationColumn) :
    Sound (validationHead env item) [] fun _ _ => True := by
  apply (sound_resolve? env _).bind
  intro resolved?
  apply sound_reportIf
  exact .pure fun _ _ _ => trivial

theorem sound_validationTable (decl : FunctionDecl) (item : ValidationTable) :
    Sound (validationTable env decl item) (Node.validationTable item).keys fun final _ =>
      env.ColumnsResolve → Node.RowsFit item.header item.rows →
        (Node.validationTable item).AllTyped env final := by
  rw [Node.keys_of_isTyped _ rfl, Node.children, Node.collect_rows Node.keys_of_isTyped]
  simp only [Node.keys_expression]
  refine sound_inScope ((sound_declareMembers decl .parameters).bind fun _ => ?_)
  apply (sound_declareMembers decl .results).bind
  intro _
  refine (sound_mapM (P := fun _ _ => True) fun column _ => sound_validationHead column).bind
    fun columnTypes => ?_
  refine (sound_forM fun row _ => sound_row columnTypes row).weaken ?_
  intro final _ hcells hheads _ _ hcolumns hrows
  refine Node.allTyped_validationTable fun cells hmem value hvalue => ?_
  obtain ⟨columns, hheader, hlength⟩ := hrows cells hmem
  have hsame : cells.values.length = columnTypes.length := by
    rw [hheader] at hheads
    exact hlength.trans hheads.length_eq
  have hall := (List.forall₂_and_left _ _).1 ((hcells cells hmem hcolumns hsame).imp
    fun _ _ h => ⟨h.2, h.1⟩)
  exact Node.allTyped_expression (hall.1 value hvalue)

/-- Blocks that are about the function under test are typed. -/
def BlocksTyped (env : TypeEnv) (final : Findings) (tests : ScenarioDecl) : Prop :=
  ∀ block ∈ tests.blocks, block.WellFormed → block.AllTyped env final

theorem sound_functionBlocks (decl : FunctionDecl) (tests : ScenarioDecl) :
    Sound (functionBlocks env decl tests)
      (tests.parameters.toList.flatMap (fun block => (Node.assignments .parameters block).keys) ++
        (tests.results.toList.flatMap (fun block => (Node.assignments .results block).keys) ++
        tests.validationTable.toList.flatMap fun item => (Node.validationTable item).keys))
      fun final _ => env.ColumnsResolve → BlocksTyped env final tests := by
  refine (sound_forM_option fun block _ => sound_assignments decl .parameters block).bind fun _ => ?_
  refine (sound_forM_option fun block _ => sound_assignments decl .results block).bind fun _ => ?_
  refine (sound_forM_option fun item _ => sound_validationTable decl item).weaken ?_
  intro final _ hvalidation hresults hparameters hcolumns
  unfold BlocksTyped ScenarioDecl.blocks
  simp only [List.forall_mem_append, Node.forall_mem_option]
  exact ⟨⟨fun block hblock _ => hparameters block hblock hcolumns,
    fun block hblock _ => hresults block hblock hcolumns⟩,
    fun item hitem hrows => hvalidation item hitem hcolumns hrows⟩

theorem sound_testedFunction (tests : ScenarioDecl) :
    Sound (testedFunction env tests.function)
      (tests.inlineFunction?.toList.flatMap fun inner => (Node.function inner).keys)
      fun final decl? => (∀ inner ∈ tests.inlineFunction?, env.ColumnsResolve →
        (Node.function inner).AllTyped env final) ∧
          (tests.function.isSome = true → decl?.isSome = true) := by
  unfold ScenarioDecl.inlineFunction? testedFunction
  rcases tests.function with _ | ⟨name, reference⟩ | inner
  · exact .pure fun _ => ⟨nofun, nofun⟩
  · apply sound_reportIf
    exact .pure fun _ hsome => ⟨nofun, fun _ => by simpa [Option.isSome_iff_ne_none] using hsome⟩
  · rw [Option.toList_some, List.flatMap_singleton]
    refine (sound_function inner).bindRest fun _ => .pure fun final hall => ⟨?_, fun _ => rfl⟩
    rintro _ ⟨⟩
    exact hall

/-- The blocks about the function under test, if that is known. -/
theorem sound_rest (tests : ScenarioDecl) (function? : Option FunctionDecl) :
    Sound (match function? with
      | some function => functionBlocks env function tests
      | _ => pure ())
      (tests.parameters.toList.flatMap (fun block => (Node.assignments .parameters block).keys) ++
        (tests.results.toList.flatMap (fun block => (Node.assignments .results block).keys) ++
        tests.validationTable.toList.flatMap fun item => (Node.validationTable item).keys))
      fun final _ => function?.isSome = true → env.ColumnsResolve → BlocksTyped env final tests := by
  cases function? with
  | some function => exact (sound_functionBlocks function tests).weaken fun _ _ h _ => h
  | none =>
    have hnothing : Sound (pure ()) [] fun _ _ => True := .pure fun _ => trivial
    exact hnothing.mono List.nil_subperm fun _ _ _ => nofun

theorem sound_enumerationIn (tests : ScenarioDecl) :
    Sound (tests.enumeration.forM enumeration) [] fun _ _ => True := by
  cases tests.enumeration with
  | none => exact .pure fun _ => trivial
  | some inner => exact sound_enumeration inner

theorem sound_scenario (tests : ScenarioDecl) :
    Sound (scenario env tests) (Node.scenario tests).keys fun final _ => env.ColumnsResolve →
      ((∀ inner ∈ tests.inlineFunction?, (Node.function inner).AllTyped env final) ∧
        ∀ inner ∈ tests.table, (Node.table inner).Regular →
          (Node.table inner).AllTyped env final) ∧
      (tests.function.isSome = true → BlocksTyped env final tests) := by
  rw [Node.collect_scenario Node.keys_of_isTyped]
  simp only [List.append_assoc]
  apply (sound_testedFunction tests).bind
  intro function?
  refine Sound.mono ((sound_enumerationIn tests).bind fun _ => ?_) (List.Subperm.refl _)
    fun _ _ h => h
  refine (sound_forM_option fun inner _ => sound_table inner).bind fun _ => ?_
  refine sound_reportIf ((sound_rest tests function?).weaken ?_)
  intro final _ hblocks _ htable _ hfunction hcolumns
  exact ⟨⟨fun inner hinner => hfunction.1 inner hinner hcolumns,
    fun inner hinner => (htable inner hinner).2 hcolumns⟩,
    fun hsome => hblocks (hfunction.2 hsome) hcolumns⟩

end Check

/-! ### Roots -/

/-- Functions, tables and record types that are declared by a root declaration: itself, or those
that a scenario writes out. -/
def Declaration.units : Declaration → List Node
  | .function decl => [.function decl]
  | .enumeration _ => []
  | .table decl => [.table decl]
  | .record decl => [.record decl]
  | .scenario decl =>
    decl.inlineFunction?.toList.map .function ++ decl.table.toList.map .table

namespace Check

variable {env : TypeEnv}

/-- What checking a root declaration finds out. -/
def RootTyped (env : TypeEnv) (final : Findings) (item : Declaration) : Prop :=
  (∀ decl, item = .table decl → ∀ column ∈ decl.columns, (env.resolve? column.type).isSome = true) ∧
    (env.ColumnsResolve → ∀ unit ∈ item.units, unit.Regular → unit.AllTyped env final)

theorem sound_root (item : Declaration) :
    Sound (root env item) (Node.ofDeclaration item).keys fun final _ => RootTyped env final item := by
  cases item with
  | function decl =>
    refine (sound_function decl).weaken fun final _ hall => ⟨nofun, fun hcolumns unit hunit _ => ?_⟩
    obtain rfl := List.mem_singleton.1 hunit
    exact hall hcolumns
  | enumeration decl =>
    refine (sound_enumeration decl).mono List.nil_subperm fun final _ _ => ⟨nofun, ?_⟩
    exact fun _ unit hunit => absurd hunit List.not_mem_nil
  | table decl =>
    refine (sound_table decl).weaken fun final _ htable => ⟨?_, fun hcolumns unit hunit => ?_⟩
    · rintro _ ⟨⟩
      exact htable.1
    · obtain rfl := List.mem_singleton.1 hunit
      exact htable.2 hcolumns
  | record decl =>
    refine (sound_record decl).weaken fun final _ hall => ⟨nofun, fun hcolumns unit hunit _ => ?_⟩
    obtain rfl := List.mem_singleton.1 hunit
    exact hall hcolumns
  | scenario decl =>
    refine (sound_scenario decl).weaken fun final _ hinner => ⟨nofun, fun hcolumns unit hunit => ?_⟩
    obtain ⟨⟨hfunction, htable⟩, _⟩ := hinner hcolumns
    rcases List.mem_append.1 hunit with hunit | hunit
    · obtain ⟨inner, hinner, rfl⟩ := List.mem_map.1 hunit
      exact fun _ => hfunction inner (Option.mem_toList.1 hinner)
    · obtain ⟨inner, hinner, rfl⟩ := List.mem_map.1 hunit
      exact htable inner (Option.mem_toList.1 hinner)

theorem sound_blocks (item : Declaration) :
    Sound (root env item) (Node.ofDeclaration item).keys fun final _ =>
      ∀ tests, item = .scenario tests → tests.function.isSome = true → env.ColumnsResolve →
        BlocksTyped env final tests := by
  cases item with
  | scenario decl =>
    refine (sound_scenario decl).weaken fun final _ hall => ?_
    rintro _ ⟨⟩ hsome hcolumns
    exact (hall hcolumns).2 hsome
  | _ =>
    refine (sound_root _).weaken fun _ _ _ tests htests => ?_
    cases htests

/-- Checking root declarations one after the other. -/
theorem sound_roots (order : List Nat) :
    Sound (roots env order)
      ((order.filterMap (env.document.declarations[·]?)).flatMap fun item =>
        (Node.ofDeclaration item).keys)
      fun final _ => ∀ item ∈ order.filterMap (env.document.declarations[·]?),
        RootTyped env final item := by
  unfold roots
  refine sound_forM (P := fun item final => RootTyped env final item) fun item _ => ?_
  exact sound_ownedBy (sound_root item) item.name

end Check

end DecisionLang
