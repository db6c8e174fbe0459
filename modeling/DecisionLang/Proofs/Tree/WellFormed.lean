import DecisionLang.Proofs.Token.Identifier
import DecisionLang.Proofs.Tree.Parts
import DecisionLang.Proofs.Tree.Regular
import DecisionLang.Reading.CodeLine

/-!
# Well-formed trees

What the source of a document looks like, said of its tree: which branches may follow each other
and which may stand alone, what a block of a scenario holds, that the rows of a table fit its
header, and that names are identifiers. `Node.WellFormed` is the condition on one node and its
parts, `Node.AllWellFormed` the same of everything below a node, taken apart along the parts of a
declaration. Well-formed trees are regular.
-/

namespace DecisionLang

namespace Expr

def isElseIf : Expr → Bool
  | elseIf .. => true
  | _ => false

def isAssignment : Expr → Bool
  | assign .. => true
  | _ => false

/-- A call of a declared function or of a library function. -/
def isCall : Expr → Bool
  | call .. => true
  | _ => false

/-- Whether an expression may be one of the lines of a body. -/
def standsAlone : Expr → Bool
  | elseIf .. | otherwise .. | case .. => false
  | _ => true

def operands : Expr → List Expr
  | ifThen _ operand _ _ | elseIf _ operand _ | switch _ operand _ => [operand]
  | otherwise .. => []
  | case _ value _ => value.toList
  | other => other.children

/-- Lines below an expression: those of its body, its alternatives or its cases. -/
def linesBelow : Expr → List Expr
  | ifThen _ _ body alternatives => body ++ alternatives
  | elseIf _ _ lines | otherwise _ lines | switch _ _ lines | case _ _ lines => lines
  | _ => []

/-- Alternatives of a chain of branches: any number of `elseif`, then at most one `else`. -/
inductive IsChain : List Expr → Prop
  | nil : IsChain []
  | otherwise {branch : Expr} (h : branch.isOtherwise = true) : IsChain [branch]
  | elseIf {branch : Expr} {rest : List Expr} (h : branch.isElseIf = true) (hrest : IsChain rest) :
      IsChain (branch :: rest)

/-- What an expression promises about parts of a certain sort. -/
def HasForm : Expr → Prop
  | ifThen _ _ _ alternatives => IsChain alternatives
  | switch _ _ cases => ∀ branch ∈ cases, branch.isCase = true
  | spreadAssign _ invoked => invoked.isCall = true
  | lookUp _ function _ _ discriminator _ discriminatorColumn _ resultColumn =>
    discriminator.isSome = function.hasDiscriminator ∧
      discriminatorColumn.isSome = function.hasDiscriminator ∧
      resultColumn.isSome = !function.returnsRow
  | declare _ _ declared _ => IsIdentifier declared
  | _ => True

/-- An expression of the right form. Its operands have nothing below them. -/
structure WellFormed (whole : Expr) : Prop where
  form : whole.HasForm
  operands : ∀ operand ∈ whole.operands, operand.linesBelow = []

theorem children_eq (whole : Expr) : whole.children = whole.operands ++ whole.linesBelow := by
  cases whole <;> simp [children, operands, linesBelow]

/-- Alternatives can be added to a chain until it has an `else`. -/
theorem IsChain.append {alternatives : List Expr} {branch : Expr} (h : IsChain alternatives)
    (hopen : alternatives.getLast?.any isOtherwise = false)
    (hbranch : branch.isElseIf = true ∨ branch.isOtherwise = true) :
    IsChain (alternatives ++ [branch]) := by
  induction h with
  | nil =>
    rcases hbranch with helseIf | hotherwise
    · exact .elseIf helseIf .nil
    · exact .otherwise hotherwise
  | otherwise hlast => simp [hlast] at hopen
  | @elseIf first rest hfirst hrest ih =>
    refine .elseIf hfirst (ih ?_)
    cases rest with
    | nil => rfl
    | cons second rest => rwa [List.getLast?_cons_cons] at hopen

theorem IsChain.set {alternatives : List Expr} {branch branch' : Expr} {slot : Nat}
    (h : IsChain alternatives) (hslot : alternatives[slot]? = some branch)
    (helseIf : branch'.isElseIf = branch.isElseIf)
    (hotherwise : branch'.isOtherwise = branch.isOtherwise) :
    IsChain (alternatives.set slot branch') := by
  induction h generalizing slot with
  | nil => cases hslot
  | otherwise hlast =>
    cases slot with
    | zero =>
      cases hslot
      exact .otherwise (hotherwise.trans hlast)
    | succ slot => cases hslot
  | elseIf hfirst hrest ih =>
    cases slot with
    | zero =>
      cases hslot
      exact .elseIf (helseIf.trans hfirst) hrest
    | succ slot => exact .elseIf hfirst (ih hslot)

end Expr

namespace Node

/-- Rows come after a header and have a value for each of its columns. -/
def RowsFit {α : Type} (header : Option (List α)) (rows : List TableRow) : Prop :=
  ∀ cells ∈ rows, ∃ columns, header = some columns ∧ cells.values.length = columns.length

/-- What a node promises about itself and its parts. -/
def WellFormed : Node → Prop
  | function decl => IsIdentifier decl.name
  | definition item => IsIdentifier item.name ∧ ∀ value ∈ item.default, value.linesBelow = []
  | code block => ∀ line ∈ block.expressions, line.standsAlone = true
  | enumeration decl => IsIdentifier decl.name ∧ (decl.members.map EnumMember.name).Nodup
  | enumMember member => IsIdentifier member.name
  | table decl =>
    IsIdentifier decl.name ∧ RowsFit (decl.header.map TableHeader.columns) decl.rows
  | column item => IsIdentifier item.name
  | row item => ∀ value ∈ item.values, value.linesBelow = []
  | record decl => IsIdentifier decl.name
  | scenario decl => IsIdentifier decl.name
  | assignments _ block => ∀ line ∈ block.assignments, line.isAssignment = true
  | validationTable item => RowsFit item.header item.rows
  | body _ expressions => ∀ line ∈ expressions, line.standsAlone = true
  | expression item => item.WellFormed
  | definitions .. | header _ | testedFunction _ | expectedErrors _ => True

def AllWellFormed (node : Node) : Prop := node.Everywhere WellFormed

theorem WellFormed.regular {node : Node} (h : node.WellFormed) : node.Regular := by
  cases node with
  | expression item =>
    cases item with
    | switch => exact h.form
    | lookUp => exact h.form.1.trans h.form.2.1.symm
    | _ => trivial
  | table decl =>
    obtain ⟨_, hrows⟩ := h
    refine ⟨fun hheader => List.eq_nil_iff_forall_not_mem.2 fun cells hcells => ?_,
      fun cells hcells => ?_⟩
    · obtain ⟨columns, hcolumns, _⟩ := hrows cells hcells
      simp [hheader] at hcolumns
    · obtain ⟨columns, hcolumns, hlength⟩ := hrows cells hcells
      obtain ⟨header, hheader, rfl⟩ := Option.map_eq_some_iff.1 hcolumns
      rw [hlength, TableDecl.columns, hheader, Option.elim_some]
  | _ => trivial

theorem AllWellFormed.allRegular {node : Node} (h : node.AllWellFormed) : node.AllRegular :=
  Everywhere.imp h fun _ => WellFormed.regular

/-! ### Part by part -/

theorem allWellFormed_iff {node : Node} : node.AllWellFormed ↔
    node.WellFormed ∧ ∀ part ∈ node.children, part.AllWellFormed := everywhere_iff

theorem allWellFormed_of_children_eq_nil {node : Node} (h : node.children = []) :
    node.AllWellFormed ↔ node.WellFormed := by
  rw [allWellFormed_iff, h, and_iff_left fun _ hpart => absurd hpart List.not_mem_nil]

theorem forall_mem_option {α : Type} {P : Node → Prop} {toNode : α → Node} {item? : Option α} :
    (∀ part ∈ (item?.map toNode).toList, P part) ↔ ∀ item ∈ item?, P (toNode item) := by
  cases item? <;> simp

@[simp] theorem allWellFormed_body (reference : Reference) (lines : List Expr) :
    (body reference lines).AllWellFormed ↔ (∀ line ∈ lines, line.standsAlone = true) ∧
      ∀ line ∈ lines, (expression line).AllWellFormed := by
  rw [allWellFormed_iff]
  simp only [children, WellFormed, List.forall_mem_map]

theorem allWellFormed_expression (whole : Expr) :
    (expression whole).AllWellFormed ↔ whole.WellFormed ∧
      (∀ lines, whole.body? = some lines → ∀ line ∈ lines, line.standsAlone = true) ∧
      ∀ part ∈ whole.children, (expression part).AllWellFormed := by
  have hnodes : (expression whole).AllWellFormed ↔
      whole.WellFormed ∧ ∀ node ∈ whole.nodes, node.AllWellFormed := everywhere_iff
  rw [hnodes]
  apply and_congr_right'
  cases whole with
  | ifThen | elseIf | otherwise | case =>
    simp only [Expr.nodes, Expr.body?, Expr.children, List.cons_append, List.forall_mem_cons,
      List.forall_mem_append, List.forall_mem_map, Option.some.injEq, forall_eq', allWellFormed_body]
    tauto
  | _ => simp only [Expr.nodes, Expr.body?, List.forall_mem_map, reduceCtorEq, false_implies,
      implies_true, true_and]

@[simp] theorem allWellFormed_code (block : CodeBlock) :
    (code block).AllWellFormed ↔ (∀ line ∈ block.expressions, line.standsAlone = true) ∧
      ∀ line ∈ block.expressions, (expression line).AllWellFormed := by
  rw [allWellFormed_iff]
  simp only [children, WellFormed, List.forall_mem_map]

@[simp] theorem allWellFormed_definition (item : Definition) :
    (definition item).AllWellFormed ↔ IsIdentifier item.name ∧
      ∀ value ∈ item.default, value.linesBelow = [] ∧ (expression value).AllWellFormed := by
  rw [allWellFormed_iff]
  simp only [children, WellFormed, List.forall_mem_map, Option.mem_toList, Option.mem_def, imp_and,
    forall_and, and_assoc]

@[simp] theorem allWellFormed_definitions (role : BlockRole) (block : VariableBlock) :
    (definitions role block).AllWellFormed ↔
      ∀ item ∈ block.definitions, (definition item).AllWellFormed := by
  rw [allWellFormed_iff]
  simp only [children, WellFormed, List.forall_mem_map, true_and]

@[simp] theorem allWellFormed_function (decl : FunctionDecl) :
    (function decl).AllWellFormed ↔ IsIdentifier decl.name ∧
      (∀ block ∈ decl.parameters, (definitions .parameters block).AllWellFormed) ∧
      (∀ block ∈ decl.results, (definitions .results block).AllWellFormed) ∧
      ∀ block ∈ decl.code, (code block).AllWellFormed := by
  rw [allWellFormed_iff]
  simp only [children, WellFormed, List.forall_mem_append, forall_mem_option, and_assoc]

@[simp] theorem allWellFormed_record (decl : RecordDecl) :
    (record decl).AllWellFormed ↔
      IsIdentifier decl.name ∧ ∀ item ∈ decl.members, (definition item).AllWellFormed := by
  rw [allWellFormed_iff]
  simp only [children, WellFormed, List.forall_mem_map]

@[simp] theorem allWellFormed_enumeration (decl : EnumDecl) :
    (enumeration decl).AllWellFormed ↔ IsIdentifier decl.name ∧
      (decl.members.map EnumMember.name).Nodup ∧
      ∀ member ∈ decl.members, IsIdentifier member.name := by
  have hmember (member : EnumMember) :
      (enumMember member).AllWellFormed ↔ IsIdentifier member.name :=
    allWellFormed_of_children_eq_nil rfl
  rw [allWellFormed_iff]
  simp only [children, WellFormed, List.forall_mem_map, hmember, and_assoc]

@[simp] theorem allWellFormed_row (item : TableRow) :
    (row item).AllWellFormed ↔
      ∀ value ∈ item.values, value.linesBelow = [] ∧ (expression value).AllWellFormed := by
  rw [allWellFormed_iff]
  simp only [children, WellFormed, List.forall_mem_map, imp_and, forall_and]

@[simp] theorem allWellFormed_table (decl : TableDecl) :
    (table decl).AllWellFormed ↔ IsIdentifier decl.name ∧
      RowsFit (decl.header.map TableHeader.columns) decl.rows ∧
      (∀ head ∈ decl.header, ∀ item ∈ head.columns, IsIdentifier item.name) ∧
      ∀ cells ∈ decl.rows, (row cells).AllWellFormed := by
  have hcolumn (item : Column) : (column item).AllWellFormed ↔ IsIdentifier item.name :=
    allWellFormed_of_children_eq_nil rfl
  have hheader (head : TableHeader) :
      (header head).AllWellFormed ↔ ∀ item ∈ head.columns, IsIdentifier item.name := by
    rw [allWellFormed_iff]
    simp only [children, WellFormed, List.forall_mem_map, hcolumn, true_and]
  rw [allWellFormed_iff]
  simp only [children, WellFormed, List.forall_mem_append, forall_mem_option, List.forall_mem_map,
    hheader, and_assoc]

@[simp] theorem allWellFormed_validationTable (item : ValidationTable) :
    (validationTable item).AllWellFormed ↔ RowsFit item.header item.rows ∧
      ∀ cells ∈ item.rows, (row cells).AllWellFormed := by
  rw [allWellFormed_iff]
  simp only [children, WellFormed, List.forall_mem_map]

@[simp] theorem allWellFormed_assignments (role : BlockRole) (block : AssignmentBlock) :
    (assignments role block).AllWellFormed ↔
      ∀ line ∈ block.assignments, line.isAssignment = true ∧ (expression line).AllWellFormed := by
  rw [allWellFormed_iff]
  simp only [children, WellFormed, List.forall_mem_map, imp_and, forall_and]

theorem allWellFormed_ofTestedFunction (tested : TestedFunction) :
    (ofTestedFunction tested).AllWellFormed ↔
      ∀ decl, tested = .inline decl → (function decl).AllWellFormed := by
  cases tested with
  | named name reference =>
    have hnamed : (testedFunction (.named name reference)).AllWellFormed :=
      (allWellFormed_of_children_eq_nil rfl).2 trivial
    exact iff_of_true hnamed nofun
  | inline decl => simp only [ofTestedFunction, TestedFunction.inline.injEq, forall_eq']

@[simp] theorem allWellFormed_scenario (decl : ScenarioDecl) :
    (scenario decl).AllWellFormed ↔ IsIdentifier decl.name ∧
      (∀ inner, decl.function = some (.inline inner) → (function inner).AllWellFormed) ∧
      (∀ inner ∈ decl.enumeration, (enumeration inner).AllWellFormed) ∧
      (∀ inner ∈ decl.table, (table inner).AllWellFormed) ∧
      (∀ block ∈ decl.parameters, (assignments .parameters block).AllWellFormed) ∧
      (∀ block ∈ decl.results, (assignments .results block).AllWellFormed) ∧
      ∀ item ∈ decl.validationTable, (validationTable item).AllWellFormed := by
  have hexpected (block : ExpectedErrors) : (expectedErrors block).AllWellFormed :=
    (allWellFormed_of_children_eq_nil rfl).2 trivial
  have hfunction : (∀ tested ∈ decl.function, (ofTestedFunction tested).AllWellFormed) ↔
      ∀ inner, decl.function = some (.inline inner) → (function inner).AllWellFormed := by
    simp only [allWellFormed_ofTestedFunction, Option.mem_def]
    exact ⟨fun h inner hinner => h _ hinner inner rfl,
      fun h tested htested inner hinner => h inner (hinner ▸ htested)⟩
  rw [allWellFormed_iff]
  simp only [children, ofScenario, WellFormed, List.forall_mem_append, forall_mem_option,
    List.forall_mem_map, hexpected, hfunction, implies_true, and_true, and_assoc]

end Node

end DecisionLang
