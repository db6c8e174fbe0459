import DecisionLang.Checking.Declaration
import DecisionLang.Proofs.Checking.Rerun.Expression

/-!
# Checking declarations again

A root declaration that fits is checked in the same way in both runs, and its check leaves no
variables in scope. Main statement:
`Rerun.repeats_root`.
-/

namespace DecisionLang.Rerun

open Check

variable {again : Rerun} {names : String → Prop}

theorem Fits.refersAmong {node : Node} (h : again.Fits node) : node.RefersAmong again.named :=
  Node.Everywhere.imp h fun _ hitem => hitem.1

theorem repeats_line {line : Expr} (hline : again.Fits (.expression line)) :
    again.Repeats (fun _ => True) (discard (expression again.first line))
      (discard (expression again.second line)) fun _ => True :=
  Repeats.discard (repeats_expression hline fun _ _ => trivial)

theorem repeats_definition {item : Definition} (hitem : again.Fits (.definition item))
    (origin : Origin) :
    again.Repeats (fun _ => True) (definition again.first origin item)
      (definition again.second origin item) fun _ => True := by
  have hself := Node.Everywhere.self hitem
  have hdefault (value : Expr) (hvalue : value ∈ item.default) :
      again.Repeated (fun _ => True) value :=
    repeats_expression (Node.Everywhere.value hitem value hvalue) fun _ _ => trivial
  exact repeats_declaration ⟨item.id, item.name, item.type, item.reference⟩ trivial (hself.2 _ rfl)
    hself.1 hdefault origin

theorem repeats_function {decl : FunctionDecl} (hdecl : again.Fits (.function decl)) :
    again.Repeats names (function again.first decl) (function again.second decl)
      fun _ => True := by
  refine repeats_inScope (fun _ => True) ?_
  refine (repeats_forM fun item hitem => ?_).bind fun _ _ => ?_
  · exact repeats_definition (Node.Everywhere.parameter hdecl item hitem) .parameters
  refine (repeats_forM fun item hitem => ?_).bind fun _ _ => ?_
  · exact repeats_definition (Node.Everywhere.result hdecl item hitem) .results
  · exact repeats_forM fun line hline => repeats_line (Node.Everywhere.line hdecl line hline)

theorem repeats_enumeration (decl : EnumDecl) :
    again.Repeats names (enumeration decl) (enumeration decl) fun _ => True := by
  unfold enumeration
  split
  · exact (repeats_fail _ _).bind fun _ _ => repeats_forM fun _ _ => repeats_report _ _
  · exact repeats_forM fun _ _ => repeats_report _ _

theorem repeats_columnHead {item : Column} (hitem : item.type.Among again.named) :
    again.Repeats names (columnHead again.first item) (columnHead again.second item)
      again.Typed := by
  obtain ⟨hsame, hamong⟩ := again.agrees.resolve? hitem
  unfold columnHead
  dsimp only
  rw [hsame]
  exact repeats_reportIf (.pure hamong)

theorem repeats_row {item : TableRow} (hitem : again.Fits (.row item))
    {columnTypes : List (Option Ty)} (hcolumns : ∀ type? ∈ columnTypes, again.Typed type?) :
    again.Repeats (fun _ => True) (row again.first columnTypes item)
      (row again.second columnTypes item) fun _ => True := by
  refine repeats_forM fun pair hpair => ?_
  obtain ⟨hvalue, hcolumn⟩ := List.of_mem_zip hpair
  have hvalue := Node.Everywhere.cell hitem pair.1 hvalue
  exact repeats_checkStored (repeats_expression hvalue fun _ _ => trivial) (hcolumns _ hcolumn)

theorem repeats_table {decl : TableDecl} (hdecl : again.Fits (.table decl)) :
    again.Repeats names (table again.first decl) (table again.second decl) fun _ => True := by
  have hcolumns := hdecl.refersAmong.column
  unfold TableDecl.columns at hcolumns
  unfold table
  cases hheader : decl.header with
  | none => exact repeats_fail _ _
  | some header =>
    rw [hheader] at hcolumns
    refine (repeats_mapM fun item hitem => repeats_columnHead (hcolumns item hitem)).bind
      fun columnTypes htypes => ?_
    refine repeats_forM fun item hitem => repeats_inScope (fun _ => True) ?_
    exact repeats_row (Node.Everywhere.tableRow hdecl item hitem) htypes

theorem repeats_record {decl : RecordDecl} (hdecl : again.Fits (.record decl)) :
    again.Repeats names (record again.first decl) (record again.second decl) fun _ => True := by
  refine repeats_inScope (fun _ => True) (repeats_forM fun item hitem => ?_)
  unfold recordMember
  split
  · exact repeats_report _ _
  · exact repeats_definition (Node.Everywhere.member hdecl item hitem) .record

/-! ### Scenarios -/

section Scenario

variable {decl : FunctionDecl} (hdecl : (Node.function decl).RefersAmong again.named)
include hdecl

theorem repeats_declareMembers (role : BlockRole) :
    again.Repeats (fun _ => True) (declareMembers again.first decl role)
      (declareMembers again.second decl role) fun _ => True := by
  obtain ⟨hsame, hamong⟩ := again.agrees.functionMembers hdecl role
  unfold declareMembers
  dsimp only
  rw [hsame]
  refine repeats_forM fun item _ => ?_
  split
  · next type htype =>
    exact Repeats.discard (repeats_declare trivial (hamong.of_first? htype))
  · exact .pure trivial

theorem repeats_assignments (role : BlockRole) {block : AssignmentBlock}
    (hblock : ∀ line ∈ block.assignments, again.Fits (.expression line)) :
    again.Repeats names (assignments again.first decl role block)
      (assignments again.second decl role block) fun _ => True := by
  refine repeats_inScope (fun _ => True) ?_
  refine (repeats_declareMembers hdecl role).bind fun _ _ => ?_
  exact repeats_forM fun line hline => repeats_line (hblock line hline)

omit hdecl in
theorem repeats_validationHead (item : ValidationColumn) :
    again.Repeats names (validationHead again.first item) (validationHead again.second item)
      again.Typed := by
  refine (repeats_resolve? _).bind fun found? hfound => repeats_reportIf (.pure ?_)
  intro type htype
  obtain ⟨found, hmem, rfl⟩ := Option.map_eq_some_iff.1 htype
  exact hfound found hmem

theorem repeats_validationTable {item : ValidationTable}
    (hitem : ∀ cells ∈ item.rows, again.Fits (.row cells)) :
    again.Repeats names (validationTable again.first decl item)
      (validationTable again.second decl item) fun _ => True := by
  refine repeats_inScope (fun _ => True) ?_
  refine (repeats_declareMembers hdecl .parameters).bind fun _ _ => ?_
  refine (repeats_declareMembers hdecl .results).bind fun _ _ => ?_
  refine (repeats_mapM fun column _ => repeats_validationHead column).bind fun types htypes => ?_
  exact repeats_forM fun cells hcells => repeats_row (hitem cells hcells) htypes

theorem repeats_functionBlocks {tests : ScenarioDecl} (htests : again.Fits (.scenario tests)) :
    again.Repeats names (functionBlocks again.first decl tests)
      (functionBlocks again.second decl tests) fun _ => True := by
  refine (repeats_forM_option fun block hblock => ?_).bind fun _ _ => ?_
  · exact repeats_assignments hdecl .parameters (Node.Everywhere.parameterLine htests block hblock)
  refine (repeats_forM_option fun block hblock => ?_).bind fun _ _ => ?_
  · exact repeats_assignments hdecl .results (Node.Everywhere.resultLine htests block hblock)
  refine repeats_forM_option fun item hitem => ?_
  exact repeats_validationTable hdecl (Node.Everywhere.validationRow htests item hitem)

end Scenario

theorem repeats_testedFunction {tests : ScenarioDecl} (htests : again.Fits (.scenario tests)) :
    again.Repeats names (testedFunction again.first tests.function)
      (testedFunction again.second tests.function)
      fun decl? => ∀ decl ∈ decl?, (Node.function decl).RefersAmong again.named := by
  have htested := Node.Everywhere.tested htests
  unfold testedFunction
  cases hfunction : tests.function with
  | none => exact .pure nofun
  | some tested =>
    have htested := htested tested hfunction
    cases tested with
    | inline decl =>
      refine (repeats_function htested).bind fun _ _ => .pure ?_
      rintro _ ⟨⟩
      exact Fits.refersAmong htested
    | named name reference =>
      have hname : again.named name := (Node.Everywhere.self htested).1 name rfl
      dsimp only
      rw [Document.function?_congr (again.agrees.called name hname)]
      exact repeats_reportIf (.pure fun decl hdecl => again.agrees.refers_function hname hdecl)

theorem repeats_scenario {tests : ScenarioDecl} (htests : again.Fits (.scenario tests)) :
    again.Repeats names (scenario again.first tests) (scenario again.second tests)
      fun _ => True := by
  refine (repeats_testedFunction htests).bind fun decl? hdecl => ?_
  refine (repeats_forM_option fun decl _ => repeats_enumeration decl).bind fun _ _ => ?_
  refine (repeats_forM_option fun item hitem => ?_).bind fun _ _ => repeats_reportIf ?_
  · exact repeats_table (Node.Everywhere.scenarioTable htests item hitem)
  · cases decl? with
    | none => exact .pure trivial
    | some decl => exact repeats_functionBlocks (hdecl decl rfl) htests

/-! ### Roots -/

theorem repeats_root {item : Declaration} (hitem : again.Fits (.ofDeclaration item)) :
    again.Repeats names (root again.first item) (root again.second item) fun _ => True := by
  cases item with
  | function decl => exact repeats_function hitem
  | enumeration decl => exact repeats_enumeration decl
  | table decl => exact repeats_table hitem
  | record decl => exact repeats_record hitem
  | scenario decl => exact repeats_scenario hitem

end DecisionLang.Rerun
