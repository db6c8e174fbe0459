import DecisionLang.Proofs.Reading.Slots
import DecisionLang.Proofs.Tree.Numbers
import DecisionLang.Proofs.Tree.WellFormed
import Mathlib.Data.List.Nodup

/-!
# Numbers are handed out once

What is read from a line has numbers of its own, between the next free number before the line and
the one after it. A line that is taken adds such numbers to those that its receiver has, wherever
it ends up, and changes nothing else about the lines before it. Main statements:
`Grammar.fresh_of_gives` and `Receiver.Takes.perm_numbers`.
-/

namespace DecisionLang

open Numbered

/-- Numbers that were handed out in between. -/
structure Fresh (numbers : List Nat) (next after : Nat) : Prop where
  le : next ≤ after
  nodup : numbers.Nodup
  bounds : ∀ number ∈ numbers, next ≤ number ∧ number < after

namespace Fresh

variable {numbers others : List Nat} {next between after : Nat}

theorem nil (next : Nat) : Fresh [] next next := ⟨Nat.le_refl _, List.nodup_nil, by simp⟩

theorem append (h : Fresh numbers next between) (hothers : Fresh others between after) :
    Fresh (numbers ++ others) next after := by
  refine ⟨Nat.le_trans h.le hothers.le, List.nodup_append.2 ⟨h.nodup, hothers.nodup, ?_⟩, ?_⟩
  · intro number hnumber other hother
    have := (h.bounds number hnumber).2
    have := (hothers.bounds other hother).1
    omega
  · intro number hnumber
    have := h.le
    have := hothers.le
    rcases List.mem_append.1 hnumber with hnumber | hnumber
    · have := h.bounds number hnumber
      omega
    · have := hothers.bounds number hnumber
      omega

theorem perm (h : Fresh numbers next after) (hperm : numbers.Perm others) :
    Fresh others next after :=
  ⟨h.le, hperm.nodup_iff.1 h.nodup, fun number hnumber =>
    h.bounds number (hperm.mem_iff.2 hnumber)⟩

theorem mono (h : Fresh numbers next between) (hle : between ≤ after) : Fresh numbers next after := by
  refine ⟨Nat.le_trans h.le hle, h.nodup, fun number hnumber => ?_⟩
  have := h.bounds number hnumber
  omega

theorem single (next : Nat) : Fresh [next] next (next + 1) :=
  ⟨Nat.le_succ _, List.nodup_singleton _, by simp⟩

/-- The number of a whole is handed out after those of its parts. -/
theorem cons (h : Fresh numbers next after) : Fresh (after :: numbers) next (after + 1) :=
  (h.append (single after)).perm (List.perm_append_singleton after numbers)

end Fresh

/-! ### Expressions -/

theorem fresh_inOrder {α : Type} {items : List α} {results : List Expr} {next after : Nat}
    (h : InOrder (fun _ next result after => Fresh (Expr.numbers result) next after) items next
      results after) : Fresh (results.flatMap Expr.numbers) next after := by
  induction h with
  | nil => exact .nil _
  | cons hhead _ ih => exact hhead.append ih

theorem numbers_targetOf (target : Target) (mark : Mark) :
    (Shape.targetOf target mark).numbers = [mark.id] := by
  rw [Expr.numbers_eq]
  unfold Shape.targetOf
  split <;> rfl

namespace Grammar

variable {grammar : Grammar} {line : Line}

/-- The numbers of an expression that is read are handed out while it is read. -/
theorem fresh_of_gives {tokens : List Token} {next after : Nat} {result : Expr}
    (h : (grammar.read line tokens).Gives next result after) : Fresh result.numbers next after := by
  refine read_induction (motive := fun _ next result after => Fresh result.numbers next after) ?_ h
  intro tokens next result after hbuilds
  rw [Expr.numbers_eq]
  cases hbuilds with
  | @branch kind first subject decision after hshape hsubject =>
    cases kind <;> simpa [Shape.branchOf, Expr.children, Expr.id, Expr.mark] using hsubject.cons
  | @fallback kind first hshape =>
    cases kind <;> simpa [Shape.fallbackOf, Expr.children, Expr.id, Expr.mark] using .single next
  | @assignment first target sign value offered after hshape hvalue =>
    have htarget := numbers_targetOf target ⟨next, line.tokenReference first⟩
    simpa [Expr.children, Expr.id, Expr.mark, htarget] using ((Fresh.single next).append hvalue).cons
  | binary hshape hleft hright =>
    simpa [Expr.children, Expr.id, Expr.mark] using (hleft.append hright).cons
  | lookUp pair? result? hshape _ _ _ _ _ _ hdiscriminator hvalue =>
    simpa [Expr.children, Expr.id, Expr.mark] using
      ((fresh_inOrder hdiscriminator).append hvalue).cons
  | call hshape hobject htable harguments =>
    simpa [Expr.children, Expr.id, Expr.mark] using (fresh_inOrder harguments).cons
  | spreadAssignment hshape hinner | declarationWith hshape hinner | group hshape hinner
  | indexed hshape hinner | extract hshape _ _ hinner =>
    simpa [Expr.children, Expr.id, Expr.mark] using hinner.cons
  | declaration | make | spread | path | literal | name =>
    simpa [Expr.children, Expr.id, Expr.mark] using .single next

theorem fresh_cells {cells : List (List Token)} {values : List Expr} {next after : Nat}
    (h : InOrder (fun cell => (grammar.read line cell).Gives) cells next values after) :
    Fresh (values.flatMap Expr.numbers) next after :=
  fresh_inOrder (h.imp fun _ {_ _ _} hread => fresh_of_gives hread)

end Grammar

/-! ### Receivers -/

theorem DeclarationLine.children_of_emptyDeclaration? {keyword : Keyword} {name : String}
    {reference : Reference} {declaration : Declaration}
    (h : emptyDeclaration? keyword name reference = some declaration) :
    (Node.ofDeclaration declaration).children = [] := by
  unfold emptyDeclaration? at h
  split at h <;> cases h <;> rfl

namespace CodeLine

/-- The lines of a body after an expression is added: it is the last line, or an alternative of the
chain of branches that ends them, as long as that has no `else`. -/
inductive Adds (lines : List Expr) (item : Expr) : List Expr → Prop
  | line (halone : item.standsAlone = true) : Adds lines item (lines ++ [item])
  | alternative {earlier : List Expr} {mark : Mark} {condition : Expr}
      {body alternatives : List Expr}
      (hlines : lines = earlier ++ [.ifThen mark condition body alternatives])
      (hbranch : item.isElseIf = true ∨ item.isOtherwise = true)
      (hopen : alternatives.getLast?.any Expr.isOtherwise = false) :
      Adds lines item (earlier ++ [.ifThen mark condition body (alternatives ++ [item])])

theorem adds_of_add {lines : List Expr} {item : Expr} {received : Received (List Expr)}
    (h : add lines item = .ok received) : Adds lines item received.receiver := by
  have hattach {keyword : Keyword} (hbranch : item.isElseIf = true ∨ item.isOtherwise = true)
      (h : attach lines keyword item = .ok received) : Adds lines item received.receiver := by
    unfold attach at h
    split at h
    · next mark condition body alternatives hlast =>
      split at h
      · cases h
      · next hopen =>
        cases h
        exact .alternative (List.dropLast_append_getLast? _ hlast).symm hbranch
          (Bool.eq_false_iff.2 hopen)
    · cases h
  unfold add at h
  split at h
  · exact hattach (.inl rfl) h
  · exact hattach (.inr rfl) h
  · cases h
  · next helseIf hotherwise hcase =>
    have halone : item.standsAlone = true := by
      cases item <;> first | rfl | simp at helseIf hotherwise hcase
    split at h <;> cases h <;> exact .line halone

theorem added_of_addCase {cases : List Expr} {item : Expr} {received : Received (List Expr)}
    (h : addCase cases item = .ok received) :
    item.isCase = true ∧ received.receiver = cases ++ [item] := by
  unfold addCase at h
  split at h
  · cases h
    exact ⟨rfl, rfl⟩
  · cases h

theorem perm_numbers_of_add {lines : List Expr} {item : Expr} {received : Received (List Expr)}
    (h : add lines item = .ok received) :
    (received.receiver.flatMap Expr.numbers).Perm (lines.flatMap Expr.numbers ++ item.numbers) := by
  have hadds := adds_of_add h
  generalize received.receiver = lines' at hadds ⊢
  cases hadds with
  | line => rw [List.flatMap_append, List.flatMap_singleton]
  | @alternative earlier mark condition body alternatives hlines =>
    rw [hlines, List.flatMap_append, List.flatMap_append, List.flatMap_singleton,
      List.flatMap_singleton, Expr.numbers_eq, Expr.numbers_eq (.ifThen _ _ _ alternatives)]
    simp [Expr.children, Expr.id, Expr.mark]

end CodeLine

namespace Node

theorem numbers_definition (item : Definition) :
    (definition item).numbers = item.id :: item.default.toList.flatMap Expr.numbers := by
  rw [numbers_eq, children, List.flatMap_map]
  simp only [Expr.numbers_expression]
  rfl

/-- The number of a definition is that of the line that declares it. -/
theorem numbers_declare (mark : Mark) (type : WrittenType) (name : String)
    (default : Option Expr) (reference : Reference) :
    (definition ⟨mark.id, name, reference, type, default⟩).numbers =
      (Expr.declare mark type name default).numbers := by
  rw [numbers_definition, Expr.numbers_eq]
  rfl

theorem numbers_table (decl : TableDecl) :
    (table decl).numbers = decl.rows.flatMap fun item => item.values.flatMap Expr.numbers := by
  rw [numbers_eq, collect_table numbers_of_isTyped]
  simp only [Expr.numbers_expression]
  rfl

theorem numbers_function (decl : FunctionDecl) :
    (function decl).numbers =
      decl.parameterDefinitions.flatMap (fun item => (definition item).numbers) ++
        decl.resultDefinitions.flatMap (fun item => (definition item).numbers) ++
        decl.expressions.flatMap Expr.numbers := by
  rw [collect_function numbers_of_isTyped]
  simp only [Expr.numbers_expression]

theorem numbers_validationTable (item : ValidationTable) :
    (validationTable item).numbers = item.rows.flatMap fun item => item.values.flatMap Expr.numbers := by
  rw [numbers_of_isTyped _ rfl, children, collect_rows numbers_of_isTyped]
  simp only [Expr.numbers_expression]

theorem numbers_assignments (role : BlockRole) (block : AssignmentBlock) :
    (assignments role block).numbers = block.assignments.flatMap Expr.numbers := by
  rw [numbers_of_isTyped _ rfl, children, List.flatMap_map]
  simp only [Expr.numbers_expression]

end Node

namespace Receiver

def numbers : Receiver → List Nat
  | document whole => whole.declarations.flatMap fun item => (Node.ofDeclaration item).numbers
  | function decl => (Node.function decl).numbers
  | definitions block => block.definitions.flatMap fun item => (Node.definition item).numbers
  | table decl => (Node.table decl).numbers
  | record decl => (Node.record decl).numbers
  | scenario decl => (Node.scenario decl).numbers
  | assignments block => block.assignments.flatMap Expr.numbers
  | validationTable item => (Node.validationTable item).numbers
  | enumeration _ | expectedErrors _ => []
  | body lines => lines.flatMap Expr.numbers
  | expression item => item.numbers

theorem numbers_ofDeclaration (declaration : Declaration) :
    (ofDeclaration declaration).numbers = (Node.ofDeclaration declaration).numbers := by
  cases declaration with
  | enumeration decl => exact (Node.collect_enumeration Node.numbers_of_isTyped decl).symm
  | _ => rfl

variable {receiver receiver' inner inner' : Receiver}

theorem numbers_scenario (decl : ScenarioDecl) :
    (scenario decl).numbers =
      decl.inlineFunction?.toList.flatMap (fun inner => (Node.function inner).numbers) ++
        decl.table.toList.flatMap (fun inner => (Node.table inner).numbers) ++
        decl.parameters.toList.flatMap (fun block => (assignments block).numbers) ++
        decl.results.toList.flatMap (fun block => (assignments block).numbers) ++
        decl.validationTable.toList.flatMap fun item => (Node.validationTable item).numbers := by
  apply (Node.collect_scenario Node.numbers_of_isTyped decl).trans
  simp only [Node.numbers_assignments]
  rfl

theorem numbers_openBlock {decl : ScenarioDecl} {block : ScenarioBlock}
    (hnew : decl.block? block = none) (hfunction : block = .function → decl.function = none)
    (reference : Reference) :
    (scenario (decl.openBlock reference block)).numbers = (scenario decl).numbers := by
  have hempty : (Node.function (FunctionDecl.empty decl.name reference)).numbers = [] := by
    rw [Node.numbers_function]
    rfl
  have htable : (Node.table (TableDecl.empty decl.name reference)).numbers = [] := by
    rw [Node.numbers_table]
    rfl
  have hvalidation : (Node.validationTable ⟨reference, none, []⟩).numbers = [] := by
    rw [Node.numbers_validationTable]
    rfl
  have hassignments : (assignments ⟨reference, []⟩).numbers = [] := rfl
  cases block <;>
    simp_all [numbers_scenario, ScenarioDecl.openBlock, ScenarioDecl.block?,
      ScenarioDecl.inlineFunction?]

theorem perm_numbers_withBody {whole : Expr} {lines lines' : List Expr} {fresh : List Nat}
    (hbody : whole.body? = some lines)
    (h : (lines'.flatMap Expr.numbers).Perm (lines.flatMap Expr.numbers ++ fresh)) :
    (whole.withBody lines').numbers.Perm (whole.numbers ++ fresh) := by
  apply List.perm_iff_count.2
  intro number
  have := h.count_eq number
  cases whole <;> cases hbody <;>
    · rw [List.count_append, Expr.numbers_eq (.withBody _ _), Expr.numbers_eq]
      simp only [Expr.withBody, Expr.children, Expr.id, Expr.mark, List.cons_append,
        List.flatMap_cons, List.flatMap_append, List.count_cons, List.count_append] at this ⊢
      omega

/-- Numbers that are added inside a receiver are added to it. -/
theorem Replaces.perm_numbers (h : receiver.Replaces inner inner' receiver') {fresh : List Nat}
    (hinner : inner'.numbers.Perm (inner.numbers ++ fresh)) :
    receiver'.numbers.Perm (receiver.numbers ++ fresh) := by
  cases h with
  | declaration hslot _ =>
    rw [numbers_ofDeclaration, numbers_ofDeclaration] at hinner
    exact perm_flatMap_set hslot hinner
  | line hslot _ => exact perm_flatMap_set hslot hinner
  | branchBody hslot => exact perm_numbers_withBody hslot hinner
  | @alternative mark condition lines alternatives _ _ _ hslot _ =>
    have halternatives := perm_flatMap_set (f := Expr.numbers) hslot hinner
    simp only [numbers]
    rw [Expr.numbers_eq, Expr.numbers_eq (.ifThen _ _ _ alternatives)]
    simpa [Expr.children, Expr.id, Expr.mark] using
      (halternatives.append_left (lines.flatMap Expr.numbers)).append_left condition.numbers
  | @case mark subject cases _ _ _ hslot _ =>
    have hcases := perm_flatMap_set (f := Expr.numbers) hslot hinner
    simp only [numbers]
    rw [Expr.numbers_eq, Expr.numbers_eq (.switch _ _ cases)]
    simpa [Expr.children, Expr.id, Expr.mark] using hcases.append_left _
  | parameters hslot | results hslot | code hslot =>
    apply List.perm_iff_count.2
    intro number
    have := hinner.count_eq number
    simp only [numbers, Node.numbers_function, FunctionDecl.parameterDefinitions,
      FunctionDecl.resultDefinitions, FunctionDecl.expressions, hslot, Option.elim_some,
      List.count_append] at this ⊢
    omega
  | testedFunction hslot | testedEnumeration hslot | testedTable hslot | givenParameters hslot
  | givenResults hslot | validationTable hslot | expectErrors hslot | expectComponentErrors hslot
  | expectExecutionErrors hslot =>
    apply List.perm_iff_count.2
    intro number
    have := hinner.count_eq number
    simp only [numbers_scenario, ScenarioDecl.inlineFunction?, hslot, Option.toList_some,
      List.flatMap_singleton, List.count_append] at this ⊢
    simp only [numbers, List.count_nil] at this ⊢
    omega

variable {grammar : Grammar} {line : Line} {next after : Nat} {received : Received Receiver}

theorem Accepts.exists_fresh (h : receiver.Accepts grammar line next received after) :
    ∃ fresh, Fresh fresh next after ∧
      received.receiver.numbers.Perm (receiver.numbers ++ fresh) := by
  have hkept {receiver receiver' : Receiver} (next : Nat)
      (hsame : receiver'.numbers = receiver.numbers) :
      ∃ fresh, Fresh fresh next next ∧ receiver'.numbers.Perm (receiver.numbers ++ fresh) := by
    refine ⟨[], .nil next, ?_⟩
    rw [hsame, List.append_nil]
  cases h with
  | skip => exact hkept _ rfl
  | malformedInclusion | inclusion => exact hkept _ rfl
  | @declaration document keyword name declaration next hname hsort =>
    apply hkept _
    have hempty : (Node.ofDeclaration declaration).numbers = [] := by
      rw [Node.numbers_eq, DeclarationLine.children_of_emptyDeclaration? hsort]
      cases declaration <;> rfl
    simp [DeclarationLine.addDeclaration, Received.map, numbers, hempty]
  | @functionBlock decl block next hnew =>
    apply hkept _
    cases block <;>
      simp_all [Received.child, numbers, Node.numbers_function, FunctionDecl.openBlock,
        FunctionDecl.block?, FunctionDecl.parameterDefinitions, FunctionDecl.resultDefinitions,
        FunctionDecl.expressions]
  | definition hread =>
    refine ⟨_, Grammar.fresh_of_gives hread, ?_⟩
    simp [Received.leaf, numbers, Node.numbers_declare]
  | member hread =>
    refine ⟨_, Grammar.fresh_of_gives hread, ?_⟩
    simp [Received.leaf, numbers, Node.collect_record Node.numbers_of_isTyped, Node.numbers_declare]
  | enumMember => exact hkept _ rfl
  | tableHeader => exact hkept _ (by simp only [numbers, Node.numbers_table])
  | tableRow _ _ _ hvalues =>
    refine ⟨_, Grammar.fresh_cells hvalues, ?_⟩
    simp [Received.leaf, numbers, Node.numbers_table]
  | testedFunction hnew =>
    apply hkept _
    simp [Received.leaf, numbers_scenario, ScenarioDecl.inlineFunction?, hnew]
  | expectedError =>
    apply hkept _
    simp [Received.leaf, numbers_scenario, ScenarioDecl.inlineFunction?]
  | @scenarioBlock decl block next hnew hfunction =>
    apply hkept _
    exact numbers_openBlock hnew hfunction line.start
  | assignment hread =>
    refine ⟨_, Grammar.fresh_of_gives hread, ?_⟩
    simp [Received.leaf, numbers]
  | validationHeader =>
    apply hkept _
    simp [Received.leaf, numbers, Node.numbers_validationTable]
  | validationRow _ _ _ hvalues =>
    refine ⟨_, Grammar.fresh_cells hvalues, ?_⟩
    simp [Received.leaf, numbers, Node.numbers_validationTable]
  | message => exact hkept _ rfl
  | code hread hadd =>
    exact ⟨_, Grammar.fresh_of_gives hread, CodeLine.perm_numbers_of_add hadd⟩
  | branch hbody hread hadd =>
    refine ⟨_, Grammar.fresh_of_gives hread, ?_⟩
    exact perm_numbers_withBody hbody (CodeLine.perm_numbers_of_add hadd)
  | @case mark subject cases item received next after hread hadd =>
    refine ⟨_, Grammar.fresh_of_gives hread, ?_⟩
    obtain ⟨_, hadded⟩ := CodeLine.added_of_addCase hadd
    simp only [Received.map, hadded, numbers]
    rw [Expr.numbers_eq, Expr.numbers_eq (.switch _ _ cases)]
    simp [Expr.children, Expr.id, Expr.mark]

theorem Takes.exists_fresh {path : SlotPath}
    (h : Takes grammar line path receiver next received after) :
    ∃ fresh, Fresh fresh next after ∧
      received.receiver.numbers.Perm (receiver.numbers ++ fresh) := by
  induction h with
  | here haccepted => exact haccepted.exists_fresh
  | inside hslot htaken ih =>
    obtain ⟨fresh, hfresh, hperm⟩ := ih
    exact ⟨fresh, hfresh, (replaces_of_slot? hslot htaken.alike).perm_numbers hperm⟩

end Receiver

end DecisionLang
