import DecisionLang.Proofs.Checking.Declaration

/-!
# Parts that are used as values

Statements can be part of any expression, but they have no value. `Node.values` lists the parts of a
node that it needs the values of; most of these are compared with a type that something else has
(`Expr.compared`), and others have their own type taken over (`Node.inferring`).
-/

namespace DecisionLang

namespace Expr

/-- An expression without the parentheses around it. -/
def ungrouped : Expr → Expr
  | group _ inner => inner.ungrouped
  | other => other

def isStatement : Expr → Bool
  | assign .. | declare .. | extract .. | ifThen .. | elseIf .. | otherwise .. | switch .. | case ..
  | spreadAssign .. => true
  | _ => false

/-- Whether an expression has a value: it is no statement, in parentheses or not. -/
def IsValue (item : Expr) : Prop := item.ungrouped.isStatement = false

def values : Expr → List Expr
  | binary _ left _ right => [left, right]
  | assign _ _ value => [value]
  | declare _ _ _ default => default.toList
  | indexed _ _ index => [index]
  | extract _ object => [object]
  | lookUp _ _ _ _ discriminator value _ _ _ => discriminator.toList ++ [value]
  | call _ _ arguments => arguments
  | ifThen _ condition _ _ | elseIf _ condition _ => [condition]
  | switch _ subject _ => [subject]
  | case _ value _ => value.toList
  | spreadAssign _ invoked => [invoked]
  | literal .. | name .. | path .. | group .. | make .. | otherwise .. | spread _ => []

/-- Parts that an expression takes over the type of. -/
def inferring : Expr → List Expr
  | declare _ .implicit _ default => default.toList
  | switch _ subject _ => [subject]
  | _ => []

/-- Parts that an expression checks to be values. The value of a case is checked by the switch
around it. -/
def compared : Expr → List Expr
  | switch _ subject cases => subject :: caseValues cases
  | case .. => []
  | other => other.values

/-! ### Along with an expression -/

/-- Something holds of an expression and of everything that is checked along with it. -/
def AllChecked (P : Expr → Prop) (whole : Expr) : Prop := ∀ item ∈ whole.checked, P item

theorem allChecked_iff {P : Expr → Prop} {whole : Expr} :
    whole.AllChecked P ↔ P whole ∧ ∀ part ∈ whole.checkedParts, part.AllChecked P := by
  unfold AllChecked
  rw [checked_eq]
  simp only [List.forall_mem_cons, List.mem_flatMap]
  exact and_congr_right' ⟨fun h part hpart item hitem => h item ⟨part, hpart, hitem⟩,
    fun h item ⟨part, hpart, hitem⟩ => h part hpart item hitem⟩

/-- No type is taken over from a statement. -/
def Guarded (whole : Expr) : Prop :=
  whole.AllChecked fun item => item.Regular ∧ ∀ value ∈ item.inferring, value.IsValue

/-- No statement is used as a value. -/
def UsesValues (whole : Expr) : Prop :=
  whole.AllChecked fun item => ∀ value ∈ item.compared, value.IsValue

/-- What is inside an expression is the expression itself or a direct part of something inside it. -/
theorem eq_or_exists_parent {whole item : Expr} (h : item ∈ whole.subterms) :
    item = whole ∨ ∃ parent ∈ whole.subterms, item ∈ parent.children := by
  induction hsize : sizeOf whole using Nat.strongRecOn generalizing whole with
  | ind size ih =>
    subst hsize
    rw [subterms_eq] at h
    rcases List.mem_cons.1 h with rfl | h
    · exact .inl rfl
    · obtain ⟨child, hchild, hitem⟩ := List.mem_flatMap.1 h
      have hinside := mem_subterms_of_mem_children hchild
      rcases ih _ (sizeOf_lt_of_mem_children hchild) hitem rfl with rfl | ⟨parent, hparent, hitem⟩
      · exact .inr ⟨whole, mem_subterms_self whole, hchild⟩
      · exact .inr ⟨parent, mem_subterms_trans hparent hinside, hitem⟩

/-- The case that a value belongs to is a branch of a switch, unless it is stray. -/
theorem mem_compared_of_mem_children {parent item value : Expr} (hstray : parent.strayCases = [])
    (hitem : item ∈ parent.children) (hvalue : item.caseValue? = some value) :
    value ∈ parent.compared := by
  have hnone {items : List Expr} (h : (items.filter fun item => item.caseValue?.isSome) = [])
      (hmem : item ∈ items) : value ∈ parent.compared := by
    rw [caseValue?_eq_none h item hmem] at hvalue
    cases hvalue
  cases parent with
  | switch mark subject cases =>
    rcases List.mem_cons.1 hitem with rfl | hbranch
    · exact hnone hstray List.mem_cons_self
    · exact List.mem_cons_of_mem _ (List.mem_filterMap.2 ⟨item, hbranch, hvalue⟩)
  | _ => exact hnone hstray hitem

/-- What an expression uses is compared by it, or by the switch around it. -/
theorem exists_compared {whole item value : Expr}
    (hstray : ∀ item ∈ whole.subterms, item.strayCases = []) (hwhole : whole.caseValue? = none)
    (hitem : item ∈ whole.subterms) (hvalue : value ∈ item.values) :
    ∃ other ∈ whole.subterms, value ∈ other.compared := by
  cases item with
  | case mark value? body =>
    have hcase : (case mark value? body).caseValue? = some value := Option.mem_toList.1 hvalue
    rcases eq_or_exists_parent hitem with rfl | ⟨parent, hparent, hchild⟩
    · cases hwhole.symm.trans hcase
    · exact ⟨parent, hparent, mem_compared_of_mem_children (hstray parent hparent) hchild hcase⟩
  | switch mark subject cases =>
    obtain rfl := List.mem_singleton.1 hvalue
    exact ⟨_, hitem, List.mem_cons_self⟩
  | _ => exact ⟨_, hitem, hvalue⟩

end Expr

namespace Node

def values : Node → List Expr
  | .expression item => item.values
  | .definition item => item.default.toList
  | .row item => item.values
  | _ => []

/-- Parts that a node takes over the type of. -/
def inferring : Node → List Expr
  | .expression item => item.inferring
  | .definition item => if item.type = .implicit then item.default.toList else []
  | _ => []

/-- Something holds of everything that a node, or a node below it, needs the value of. -/
def EveryValue (P : Expr → Prop) (node : Node) : Prop :=
  node.Everywhere fun item => ∀ value ∈ item.values, P value

def UsesValues (node : Node) : Prop := node.EveryValue Expr.IsValue

/-- All values of cases are checked, and no type is taken over from a statement. -/
def Guarded (node : Node) : Prop :=
  node.Everywhere fun item =>
    item.strayCases = [] ∧ item.Regular ∧ ∀ value ∈ item.inferring, value.IsValue

theorem mem_values_of_mem_inferring {node : Node} {value : Expr} (h : value ∈ node.inferring) :
    value ∈ node.values := by
  cases node with
  | expression item =>
    cases item with
    | declare mark type name default =>
      cases type with
      | implicit => exact h
      | _ => cases h
    | switch => exact h
    | _ => cases h
  | definition item =>
    simp only [inferring] at h
    split at h
    · exact h
    · cases h
  | _ => cases h

variable {whole : Expr}

theorem Guarded.expression (h : (expression whole).Guarded) : whole.Guarded := fun _ hitem =>
  (h _ (mem_walk_of_mem_subterms (Expr.mem_subterms_of_mem_checked hitem))).2

theorem usesValues_expression (h : (expression whole).Guarded) (hcase : whole.caseValue? = none)
    (huses : whole.UsesValues) : (expression whole).UsesValues := by
  have hsubterm (item : Expr) (hitem : item ∈ whole.subterms) :=
    h _ (mem_walk_of_mem_subterms hitem)
  intro node hnode value hvalue
  have hmem : value ∈ (Node.expression whole).walk.flatMap values :=
    List.mem_flatMap.2 ⟨node, hnode, hvalue⟩
  rw [Expr.flatMap_walk_subterms values fun _ _ => rfl] at hmem
  obtain ⟨item, hitem, hvalue⟩ := List.mem_flatMap.1 hmem
  obtain ⟨other, hother, hvalue⟩ :=
    Expr.exists_compared (fun item hitem => (hsubterm item hitem).1) hcase hitem hvalue
  rcases Expr.mem_checked_of_mem_subterms (fun item hitem => (hsubterm item hitem).1)
    (fun item hitem => (hsubterm item hitem).2.1) other hother with hchecked | ⟨_, hwhole, _⟩
  · exact huses other hchecked value hvalue
  · cases hcase.symm.trans hwhole

/-! ### Part by part -/

variable {P : Expr → Prop}

theorem everyValue_iff {node : Node} : node.EveryValue P ↔
    (∀ value ∈ node.values, P value) ∧ ∀ child ∈ node.children, child.EveryValue P :=
  everywhere_iff

theorem everyValue_of_children {node : Node} (hnode : node.values = [])
    (h : ∀ child ∈ node.children, child.EveryValue P) : node.EveryValue P := by
  refine everyValue_iff.2 ⟨?_, h⟩
  rw [hnode]
  exact nofun

theorem everyValue_of_leaf {node : Node} (hnode : node.values = []) (h : node.children = []) :
    node.EveryValue P := by
  refine everyValue_of_children hnode ?_
  rw [h]
  exact List.forall_mem_nil _

theorem everyValue_function {decl : FunctionDecl}
    (hparameters : ∀ item ∈ decl.parameterDefinitions, (definition item).EveryValue P)
    (hresults : ∀ item ∈ decl.resultDefinitions, (definition item).EveryValue P)
    (hlines : ∀ line ∈ decl.expressions, (expression line).EveryValue P) :
    (function decl).EveryValue P := by
  refine everyValue_of_children rfl ?_
  simp only [children, List.forall_mem_append, forall_mem_option]
  refine ⟨⟨fun block hblock => ?_, fun block hblock => ?_⟩, fun block hblock => ?_⟩
  · refine everyValue_of_children rfl (List.forall_mem_map.2 fun item hitem => hparameters item ?_)
    rwa [FunctionDecl.parameterDefinitions, Option.mem_def.1 hblock]
  · refine everyValue_of_children rfl (List.forall_mem_map.2 fun item hitem => hresults item ?_)
    rwa [FunctionDecl.resultDefinitions, Option.mem_def.1 hblock]
  · refine everyValue_of_children rfl (List.forall_mem_map.2 fun line hline => hlines line ?_)
    rwa [FunctionDecl.expressions, Option.mem_def.1 hblock]

theorem everyValue_enumeration (decl : EnumDecl) : (enumeration decl).EveryValue P :=
  everyValue_of_children rfl (List.forall_mem_map.2 fun _ _ => everyValue_of_leaf rfl rfl)

theorem everyValue_record {decl : RecordDecl}
    (h : ∀ item ∈ decl.members, (definition item).EveryValue P) : (record decl).EveryValue P :=
  everyValue_of_children rfl (List.forall_mem_map.2 h)

theorem everyValue_table {decl : TableDecl} (h : ∀ cells ∈ decl.rows, (row cells).EveryValue P) :
    (table decl).EveryValue P := by
  refine everyValue_of_children rfl (List.forall_mem_append.2 ⟨?_, List.forall_mem_map.2 h⟩)
  refine forall_mem_option.2 fun head _ => everyValue_of_children rfl ?_
  exact List.forall_mem_map.2 fun _ _ => everyValue_of_leaf rfl rfl

theorem everyValue_scenario {decl : ScenarioDecl}
    (hfunction : ∀ inner, decl.function = some (.inline inner) → (function inner).EveryValue P)
    (htable : ∀ inner ∈ decl.table, (table inner).EveryValue P)
    (hblocks : ∀ block ∈ decl.blocks, block.EveryValue P) : (scenario decl).EveryValue P := by
  refine everyValue_of_children rfl ?_
  unfold ScenarioDecl.blocks at hblocks
  simp only [children, ofScenario, List.forall_mem_append, forall_mem_option] at hblocks ⊢
  obtain ⟨⟨hparameters, hresults⟩, hvalidation⟩ := hblocks
  refine ⟨⟨⟨⟨⟨⟨fun tested htested => ?_, fun inner _ => everyValue_enumeration inner⟩, htable⟩,
    hparameters⟩, hresults⟩, hvalidation⟩,
    List.forall_mem_map.2 fun _ _ => everyValue_of_leaf rfl rfl⟩
  cases tested with
  | named => exact everyValue_of_leaf rfl rfl
  | inline inner => exact hfunction inner htested

/-! ### Values of parts -/

/-- A value, and no statement is used as a value in it. -/
def StandsForValue (item : Expr) : Prop := item.IsValue ∧ (expression item).UsesValues

theorem usesValues_definition {item : Definition} (h : ∀ value ∈ item.default, StandsForValue value) :
    (definition item).UsesValues :=
  everyValue_iff.2 ⟨fun value hvalue => (h value (Option.mem_toList.1 hvalue)).1,
    List.forall_mem_map.2 fun value hvalue => (h value (Option.mem_toList.1 hvalue)).2⟩

theorem usesValues_row {item : TableRow} (h : ∀ value ∈ item.values, StandsForValue value) :
    (row item).UsesValues :=
  everyValue_iff.2 ⟨fun value hvalue => (h value hvalue).1,
    List.forall_mem_map.2 fun value hvalue => (h value hvalue).2⟩

/-! ### Lines -/

/-- A line of code or of a block, a default value or a value of a row, with all below it. -/
def GuardedLine (line : Expr) : Prop := (expression line).Guarded ∧ line.caseValue? = none

section Lines

variable {node : Node} (h : node.Guarded)
include h

theorem Guarded.child (hnode : node.expression? = none)
    (hbody : ∀ reference lines, node ≠ .body reference lines) {line : Expr}
    (hline : Node.expression line ∈ node.children) : GuardedLine line :=
  ⟨Everywhere.part h hline, caseValue?_eq_none_of_mem_children hnode hbody (Everywhere.self h).1 hline⟩

end Lines

end Node

/-! ### Blocks of scenarios -/

/-- Blocks that are not checked, since the scenario has no function under test. -/
def Declaration.untested : Declaration → List Node
  | .scenario decl => if decl.function.isNone then decl.blocks else []
  | _ => []

/-- Everything that has a value is checked: all values of cases, and all that is used in blocks of
scenarios. -/
structure Declaration.Covered (item : Declaration) : Prop where
  stray : (Node.ofDeclaration item).Everywhere fun node => node.strayCases = []
  untested : ∀ block ∈ item.untested, block.Everywhere fun node => node.values = []

end DecisionLang
