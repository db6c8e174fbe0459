import DecisionLang.Tree.Walk
import Mathlib.Data.List.Perm.Basic

/-!
# Numbers below a node

Findings are recorded under the numbers of expressions and definitions. `Node.numbers` lists those
of a node and of everything below it; `Node.Everywhere` says that something holds of all of these
nodes. Both are taken apart along the parts of a node.
-/

namespace DecisionLang

namespace Node

/-- The number that findings about a node are recorded under. -/
def number? : Node → Option Nat
  | definition item => some item.id
  | expression item => some item.id
  | _ => none

def expression? : Node → Option Expr
  | expression item => some item
  | _ => none

/-- Nodes that something is found out about. All others only hold their parts together. -/
def isTyped : Node → Bool
  | definition _ | expression _ | table _ => true
  | _ => false

def numbers (node : Node) : List Nat := node.walk.filterMap number?

/-- Something holds of a node and of everything below it. -/
def Everywhere (P : Node → Prop) (node : Node) : Prop := ∀ item ∈ node.walk, P item

theorem numbers_eq (node : Node) :
    node.numbers = node.number?.toList ++ node.children.flatMap numbers := by
  unfold numbers
  rw [walk_eq, List.filterMap_cons, List.filterMap_flatMap]
  cases node.number? <;> rfl

theorem numbers_of_isTyped (node : Node) (h : node.isTyped = false) :
    node.numbers = node.children.flatMap numbers := by
  rw [numbers_eq]
  cases node <;> first | rfl | cases h

theorem everywhere_iff {P : Node → Prop} {node : Node} :
    node.Everywhere P ↔ P node ∧ ∀ child ∈ node.children, child.Everywhere P := by
  unfold Everywhere
  rw [walk_eq]
  simp only [List.mem_cons, List.mem_flatMap, forall_eq_or_imp]
  grind

theorem mem_walk_self (node : Node) : node ∈ node.walk := by
  rw [walk_eq]
  exact List.mem_cons_self

theorem mem_walk_of_mem_children {part item node : Node} (hpart : part ∈ node.children)
    (h : item ∈ part.walk) : item ∈ node.walk := by
  rw [walk_eq]
  exact List.mem_cons_of_mem _ (List.mem_flatMap.2 ⟨part, hpart, h⟩)

theorem mem_walk_trans {item inner node : Node} (h : item ∈ inner.walk) (hinner : inner ∈ node.walk) :
    item ∈ node.walk := by
  induction hsize : sizeOf node using Nat.strongRecOn generalizing node with
  | ind size ih =>
    subst hsize
    rw [walk_eq] at hinner
    rcases List.mem_cons.1 hinner with rfl | hinner
    · exact h
    · obtain ⟨part, hpart, hinner⟩ := List.mem_flatMap.1 hinner
      exact mem_walk_of_mem_children hpart (ih _ (sizeOf_lt_of_mem_children hpart) hinner rfl)

/-! ### Collecting from declarations

Nodes that nothing is found out about contribute what their parts contribute. -/

section Collecting

variable {β : Type} {f : Node → List β}
  (hf : ∀ node : Node, node.isTyped = false → f node = node.children.flatMap f)

include hf

theorem collect_definitions (role : BlockRole) (block : VariableBlock) :
    f (.definitions role block) = block.definitions.flatMap fun item => f (.definition item) := by
  rw [hf _ rfl, children, List.flatMap_map]

theorem collect_function (decl : FunctionDecl) :
    f (.function decl) = decl.parameterDefinitions.flatMap (fun item => f (.definition item)) ++
      decl.resultDefinitions.flatMap (fun item => f (.definition item)) ++
      decl.expressions.flatMap fun item => f (.expression item) := by
  have hblock (role : BlockRole) (block? : Option VariableBlock) :
      (block?.map (definitions role)).toList.flatMap f =
        (block?.elim [] VariableBlock.definitions).flatMap fun item => f (.definition item) := by
    cases block? with
    | none => rfl
    | some block => simp [collect_definitions hf]
  have hcode (code? : Option CodeBlock) : (code?.map code).toList.flatMap f =
      (code?.elim [] CodeBlock.expressions).flatMap fun item => f (.expression item) := by
    cases code? with
    | none => rfl
    | some block => simp [hf (.code block) rfl, children, List.flatMap_map]
  rw [hf _ rfl, children, List.flatMap_append, List.flatMap_append, hblock, hblock, hcode]
  rfl

theorem collect_record (decl : RecordDecl) :
    f (.record decl) = decl.members.flatMap fun item => f (.definition item) := by
  rw [hf _ rfl, children, List.flatMap_map]

theorem collect_rows (rows : List TableRow) :
    (rows.map row).flatMap f = rows.flatMap fun item => item.values.flatMap fun value =>
      f (.expression value) := by
  rw [List.flatMap_map]
  apply List.flatMap_congr
  intro item _
  rw [hf _ rfl, children, List.flatMap_map]

theorem collect_table (decl : TableDecl) :
    (Node.table decl).children.flatMap f = decl.rows.flatMap fun item =>
      item.values.flatMap fun value => f (.expression value) := by
  have hheader (header? : Option TableHeader) : (header?.map header).toList.flatMap f = [] := by
    cases header? with
    | none => rfl
    | some item =>
      have hcolumn : ∀ column : Column, f (.column column) = [] := fun column => hf _ rfl
      simp [hf (.header item) rfl, children, List.flatMap_map, hcolumn]
  rw [children, List.flatMap_append, hheader, collect_rows hf, List.nil_append]

theorem collect_enumeration (decl : EnumDecl) : f (.enumeration decl) = [] := by
  have hmember : ∀ member : EnumMember, f (.enumMember member) = [] := fun member => hf _ rfl
  rw [hf _ rfl, children, List.flatMap_map]
  exact List.flatMap_eq_nil_iff.2 fun member _ => hmember member

theorem collect_scenario (decl : ScenarioDecl) :
    f (.scenario decl) = decl.inlineFunction?.toList.flatMap (fun inner => f (.function inner)) ++
      decl.table.toList.flatMap (fun inner => f (.table inner)) ++
      decl.parameters.toList.flatMap (fun block => f (.assignments .parameters block)) ++
      decl.results.toList.flatMap (fun block => f (.assignments .results block)) ++
      decl.validationTable.toList.flatMap fun table => f (.validationTable table) := by
  have hfunction (function? : Option TestedFunction) :
      (function?.map ofTestedFunction).toList.flatMap f =
        ({ decl with function := function? } : ScenarioDecl).inlineFunction?.toList.flatMap
          fun inner => f (.function inner) := by
    rcases function? with _ | ⟨name, reference⟩ | inner
    · rfl
    · simp [ofTestedFunction, ScenarioDecl.inlineFunction?, hf (.testedFunction _) rfl, children]
    · simp [ofTestedFunction, ScenarioDecl.inlineFunction?]
  have henumeration (enumeration? : Option EnumDecl) :
      (enumeration?.map enumeration).toList.flatMap f = [] := by
    cases enumeration? with
    | none => rfl
    | some inner => simp [collect_enumeration hf]
  have hexpected : (decl.expectations.map expectedErrors).flatMap f = [] := by
    rw [List.flatMap_map]
    exact List.flatMap_eq_nil_iff.2 fun block _ => hf (.expectedErrors block) rfl
  have hoption {α : Type} (toNode : α → Node) (item? : Option α) :
      (item?.map toNode).toList.flatMap f = item?.toList.flatMap fun item => f (toNode item) := by
    cases item? <;> simp
  rw [hf _ rfl, children, ofScenario]
  simp only [List.flatMap_append, hfunction, henumeration, hexpected, hoption, List.append_nil]

end Collecting

end Node

namespace Expr

/-- An expression and everything inside it, each before its parts. -/
def subterms (whole : Expr) : List Expr := (Node.expression whole).walk.filterMap Node.expression?

/-- What is collected from an expression is collected from it and from its parts, if bodies
themselves have nothing to collect. -/
theorem flatMap_walk {α : Type} (f : Node → List α)
    (hbody : ∀ reference lines, f (.body reference lines) = []) (whole : Expr) :
    (Node.expression whole).walk.flatMap f = f (.expression whole) ++
      whole.children.flatMap fun child => (Node.expression child).walk.flatMap f := by
  have hlines (reference : Reference) (lines : List Expr) :
      (Node.body reference lines).walk.flatMap f =
        lines.flatMap fun line => (Node.expression line).walk.flatMap f := by
    rw [Node.walk_eq, List.flatMap_cons, hbody, List.nil_append, List.flatMap_assoc]
    simp only [Node.children, List.flatMap_map]
  have hnodes : whole.nodes.flatMap (fun node => node.walk.flatMap f) =
      whole.children.flatMap fun child => (Node.expression child).walk.flatMap f := by
    cases whole with
    | ifThen | elseIf | otherwise | case =>
      simp [nodes, children, List.flatMap_map, List.flatMap_append, hlines]
    | _ => simp only [nodes, List.flatMap_map]
  rw [Node.walk_eq, List.flatMap_cons, List.flatMap_assoc, Node.children, hnodes]

theorem filterMap_walk {α : Type} (f : Node → Option α)
    (hbody : ∀ reference lines, f (.body reference lines) = none) (whole : Expr) :
    (Node.expression whole).walk.filterMap f = (f (.expression whole)).toList ++
      whole.children.flatMap fun child => (Node.expression child).walk.filterMap f := by
  have hwalk := flatMap_walk (fun node => (f node).toList)
    (fun reference lines => by rw [hbody, Option.toList_none]) whole
  simpa only [List.filterMap_eq_flatMap_toList] using hwalk

theorem subterms_eq (whole : Expr) : whole.subterms = whole :: whole.children.flatMap subterms :=
  filterMap_walk Node.expression? (fun _ _ => rfl) whole

theorem mem_subterms_self (whole : Expr) : whole ∈ whole.subterms := by
  rw [subterms_eq]
  exact List.mem_cons_self

theorem flatMap_walk_subterms {α : Type} (f : Node → List α)
    (hbody : ∀ reference lines, f (.body reference lines) = []) (whole : Expr) :
    (Node.expression whole).walk.flatMap f = whole.subterms.flatMap fun item => f (.expression item) := by
  induction hsize : sizeOf whole using Nat.strongRecOn generalizing whole with
  | ind size ih =>
    subst hsize
    rw [flatMap_walk f hbody, subterms_eq, List.flatMap_cons, List.flatMap_assoc]
    congr 1
    exact List.flatMap_congr fun child hchild =>
      ih (sizeOf child) (sizeOf_lt_of_mem_children hchild) child rfl

def numbers (whole : Expr) : List Nat := whole.subterms.map id

theorem numbers_eq (whole : Expr) :
    whole.numbers = whole.id :: whole.children.flatMap numbers := by
  unfold numbers
  rw [subterms_eq, List.map_cons, List.map_flatMap]

theorem numbers_expression (whole : Expr) : (Node.expression whole).numbers = whole.numbers := by
  unfold Node.numbers numbers
  rw [List.filterMap_eq_flatMap_toList, List.map_eq_flatMap]
  exact flatMap_walk_subterms _ (fun _ _ => rfl) whole

end Expr

/-! ### Lists with a part replaced -/

theorem perm_flatMap_set {α β : Type} {f : α → List β} {items : List α} {slot : Nat}
    {item item' : α} {fresh : List β} (hslot : items[slot]? = some item)
    (hperm : (f item').Perm (f item ++ fresh)) :
    ((items.set slot item').flatMap f).Perm (items.flatMap f ++ fresh) := by
  induction items generalizing slot with
  | nil => cases hslot
  | cons head items ih =>
    cases slot with
    | zero =>
      cases hslot
      rw [List.set_cons_zero, List.flatMap_cons, List.flatMap_cons]
      apply (hperm.append_right _).trans
      rw [List.append_assoc, List.append_assoc]
      exact List.perm_append_comm.append_left _
    | succ slot =>
      rw [List.set_cons_succ, List.flatMap_cons, List.flatMap_cons, List.append_assoc]
      exact (ih hslot).append_left _

theorem forall_mem_set {α : Type} {P : α → Prop} {items : List α} {slot : Nat} {item' : α}
    (h : ∀ item ∈ items, P item) (hitem : P item') : ∀ item ∈ items.set slot item', P item := by
  intro item hmem
  rcases List.mem_or_eq_of_mem_set hmem with hmem | rfl
  · exact h item hmem
  · exact hitem

end DecisionLang
