import DecisionLang.Proofs.Tree.Numbers

/-!
# Parts of a node

What holds everywhere below a node holds below each of its parts. Parts are reached here as those
who work on them name them: the definitions and lines of a function, the columns and values of a
table, the blocks of a scenario, and the parts of an expression whether or not they stand in a body.
-/

namespace DecisionLang

theorem Expr.mem_subterms_of_mem_children {part whole : Expr} (h : part ∈ whole.children) :
    part ∈ whole.subterms := by
  rw [subterms_eq]
  exact List.mem_cons_of_mem _ (List.mem_flatMap.2 ⟨part, h, mem_subterms_self part⟩)

namespace Node

theorem mem_walk_of_mem_subterms {whole item : Expr} (h : item ∈ whole.subterms) :
    Node.expression item ∈ (Node.expression whole).walk := by
  obtain ⟨node, hnode, hitem⟩ := List.mem_filterMap.1 h
  cases node <;> cases hitem
  exact hnode

theorem mem_walk_expression {whole part : Expr} (h : part ∈ whole.children) {item : Node}
    (hitem : item ∈ (expression part).walk) : item ∈ (expression whole).walk := by
  refine mem_walk_trans hitem (mem_walk_of_mem_subterms ?_)
  exact Expr.mem_subterms_of_mem_children h

namespace Everywhere

variable {P Q : Node → Prop} {node inner : Node}

theorem self (h : node.Everywhere P) : P node := h node (mem_walk_self node)

theorem imp (h : node.Everywhere P) (himp : ∀ item, P item → Q item) : node.Everywhere Q :=
  fun item hitem => himp item (h item hitem)

theorem below (h : node.Everywhere P) (hinner : inner ∈ node.walk) : inner.Everywhere P :=
  fun item hitem => h item (mem_walk_trans hitem hinner)

theorem part (h : node.Everywhere P) (hinner : inner ∈ node.children) : inner.Everywhere P :=
  h.below (mem_walk_of_mem_children hinner (mem_walk_self inner))

/-! ### Expressions -/

section Expressions

variable {whole item : Expr}

theorem subterm (h : (expression whole).Everywhere P) (hitem : item ∈ whole.subterms) :
    (expression item).Everywhere P :=
  h.below (mem_walk_of_mem_subterms hitem)

theorem child (h : (expression whole).Everywhere P) (hitem : item ∈ whole.children) :
    (expression item).Everywhere P :=
  h.below (mem_walk_expression hitem (mem_walk_self _))

end Expressions

/-! ### Declarations -/

section Declarations

theorem value {item : Definition} (h : (definition item).Everywhere P) :
    ∀ value ∈ item.default, (expression value).Everywhere P :=
  fun _ hvalue => h.part (List.mem_map_of_mem (Option.mem_toList.2 hvalue))

theorem exists_of_mem_elim {α β : Type} {block? : Option α} {items : α → List β} {item : β}
    (h : item ∈ block?.elim [] items) : ∃ block, block? = some block ∧ item ∈ items block := by
  cases block? with
  | none => cases h
  | some block => exact ⟨block, rfl, h⟩

variable {decl : FunctionDecl}

theorem parameter (h : (function decl).Everywhere P) :
    ∀ item ∈ decl.parameterDefinitions, (definition item).Everywhere P := by
  intro item hitem
  obtain ⟨block, hblock, hitem⟩ := exists_of_mem_elim hitem
  have hpart : definitions .parameters block ∈ (function decl).children := by
    simp [children, hblock]
  exact (h.part hpart).part (List.mem_map_of_mem hitem)

theorem result (h : (function decl).Everywhere P) :
    ∀ item ∈ decl.resultDefinitions, (definition item).Everywhere P := by
  intro item hitem
  obtain ⟨block, hblock, hitem⟩ := exists_of_mem_elim hitem
  have hpart : definitions .results block ∈ (function decl).children := by
    simp [children, hblock]
  exact (h.part hpart).part (List.mem_map_of_mem hitem)

theorem line (h : (function decl).Everywhere P) :
    ∀ item ∈ decl.expressions, (expression item).Everywhere P := by
  intro item hitem
  obtain ⟨block, hblock, hitem⟩ := exists_of_mem_elim hitem
  have hpart : code block ∈ (function decl).children := by simp [children, hblock]
  exact (h.part hpart).part (List.mem_map_of_mem hitem)

theorem column {decl : TableDecl} (h : (table decl).Everywhere P) :
    ∀ item ∈ decl.columns, P (column item) := by
  intro item hitem
  obtain ⟨head, hhead, hitem⟩ := exists_of_mem_elim hitem
  have hpart : header head ∈ (table decl).children := by simp [children, hhead]
  exact ((h.part hpart).part (List.mem_map_of_mem hitem)).self

theorem tableRow {decl : TableDecl} (h : (table decl).Everywhere P) :
    ∀ item ∈ decl.rows, (row item).Everywhere P :=
  fun _ hitem => h.part (List.mem_append_right _ (List.mem_map_of_mem hitem))

theorem cell {item : TableRow} (h : (row item).Everywhere P) :
    ∀ value ∈ item.values, (expression value).Everywhere P :=
  fun _ hvalue => h.part (List.mem_map_of_mem hvalue)

theorem member {decl : RecordDecl} (h : (record decl).Everywhere P) :
    ∀ item ∈ decl.members, (definition item).Everywhere P :=
  fun _ hitem => h.part (List.mem_map_of_mem hitem)

end Declarations

/-! ### Scenarios -/

section Scenarios

variable {decl : ScenarioDecl} (h : (scenario decl).Everywhere P)
include h

theorem tested : ∀ tested ∈ decl.function, (ofTestedFunction tested).Everywhere P := by
  intro tested htested
  refine h.part ?_
  simp [children, ofScenario, Option.mem_def.1 htested]

theorem scenarioTable : ∀ item ∈ decl.table, (table item).Everywhere P := by
  intro item hitem
  refine h.part ?_
  simp [children, ofScenario, Option.mem_def.1 hitem]

theorem parameterLine :
    ∀ block ∈ decl.parameters, ∀ line ∈ block.assignments, (expression line).Everywhere P := by
  intro block hblock line hline
  have hpart : assignments .parameters block ∈ (scenario decl).children := by
    simp [children, ofScenario, Option.mem_def.1 hblock]
  exact (h.part hpart).part (List.mem_map_of_mem hline)

theorem resultLine :
    ∀ block ∈ decl.results, ∀ line ∈ block.assignments, (expression line).Everywhere P := by
  intro block hblock line hline
  have hpart : assignments .results block ∈ (scenario decl).children := by
    simp [children, ofScenario, Option.mem_def.1 hblock]
  exact (h.part hpart).part (List.mem_map_of_mem hline)

theorem validationRow :
    ∀ item ∈ decl.validationTable, ∀ cells ∈ item.rows, (row cells).Everywhere P := by
  intro item hitem cells hcells
  have hpart : validationTable item ∈ (scenario decl).children := by
    simp [children, ofScenario, Option.mem_def.1 hitem]
  exact (h.part hpart).part (List.mem_map_of_mem hcells)

end Scenarios

end Everywhere

end Node

theorem Expr.mem_subterms_trans {item part whole : Expr} (h : item ∈ part.subterms)
    (hpart : part ∈ whole.subterms) : item ∈ whole.subterms := by
  refine List.mem_filterMap.2 ⟨.expression item, ?_, rfl⟩
  exact Node.mem_walk_trans (Node.mem_walk_of_mem_subterms h) (Node.mem_walk_of_mem_subterms hpart)

end DecisionLang
