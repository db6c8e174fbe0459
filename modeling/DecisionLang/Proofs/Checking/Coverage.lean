import DecisionLang.Proofs.Checking.Derivation
import DecisionLang.Proofs.Tree.Parts
import DecisionLang.Proofs.Tree.Regular
import Mathlib.Data.List.Perm.Subperm

/-!
# What checking covers

Everything in a tree is checked, except for the values of cases that stand where no switch checks
them. Such cases are stray; the numbers that are recorded and those of the values of stray cases
are different ones. Main statements: `Node.subperm_numbers` and
`Expr.mem_checked_of_mem_subterms`.
-/

namespace DecisionLang

/-- Values of the cases among some expressions. -/
def Expr.caseValues (items : List Expr) : List Expr := items.filterMap caseValue?

namespace Expr

/-- Cases with a value that are part of an expression, but not as a branch of a switch. -/
def strayCases (whole : Expr) : List Expr :=
  (match whole with
    | switch _ subject _ => [subject]
    | other => other.children).filter fun item => item.caseValue?.isSome

end Expr

namespace Node

/-- Cases with a value that are no branches of a switch. Those among the lines of a body count as
parts of the expression that the body belongs to. -/
def strayCases : Node → List Expr
  | .expression item => item.strayCases
  | .body .. => []
  | other => (other.children.filterMap expression?).filter fun item => item.caseValue?.isSome

/-- Nodes below a node, or the node itself, that are checked along with it. -/
def checked (node : Node) : List Node :=
  match node.expression? with
  | some item => item.checked.map expression
  | none => (if node.isTyped then [node] else []) ++
      node.children.attach.flatMap fun ⟨part, _⟩ => checked part
termination_by sizeOf node
decreasing_by exact sizeOf_lt_of_mem_children ‹_›

theorem eq_of_expression? {node : Node} {item : Expr} (h : node.expression? = some item) :
    node = expression item := by
  cases node <;> cases h
  rfl

theorem checked_expression (item : Expr) :
    (Node.expression item).checked = item.checked.map expression := by
  rw [checked]
  rfl

theorem checked_eq (node : Node) (h : node.expression? = none) :
    node.checked = (if node.isTyped then [node] else []) ++ node.children.flatMap checked := by
  rw [checked, h]
  simp

theorem checked_of_isTyped (node : Node) (h : node.isTyped = false) :
    node.checked = node.children.flatMap checked := by
  rw [checked_eq node (by cases node <;> first | rfl | cases h), h]
  rfl

/-- Numbers that are recorded when a node is checked. -/
def recorded (node : Node) : List Nat := node.checked.filterMap number?

theorem recorded_expression (item : Expr) :
    (Node.expression item).recorded = item.checked.map Expr.id := by
  unfold recorded
  rw [checked_expression, List.filterMap_map]
  exact congrFun List.filterMap_eq_map _

theorem recorded_eq (node : Node) (h : node.expression? = none) :
    node.recorded = node.number?.toList ++ node.children.flatMap recorded := by
  unfold recorded
  rw [checked_eq node h, List.filterMap_append, List.filterMap_flatMap]
  cases node <;> rfl

end Node

/-! ### Stray cases -/

theorem count_flatMap_le {α : Type} {items : List α} {f g : α → List Nat} {number : Nat}
    (h : ∀ item ∈ items, (f item).count number ≤ (g item).count number) :
    (items.flatMap f).count number ≤ (items.flatMap g).count number := by
  induction items with
  | nil => exact Nat.le_refl _
  | cons item items ih =>
    rw [List.flatMap_cons, List.flatMap_cons, List.count_append, List.count_append]
    have := h item List.mem_cons_self
    have := ih fun other hother => h other (List.mem_cons_of_mem _ hother)
    omega

theorem count_flatMap_append {α : Type} {items : List α} {f g : α → List Nat} {number : Nat} :
    (items.flatMap fun item => f item ++ g item).count number =
      (items.flatMap f).count number + (items.flatMap g).count number := by
  induction items with
  | nil => rfl
  | cons item items ih =>
    simp only [List.flatMap_cons, List.count_append, ih]
    omega

namespace Expr

theorem mem_subterms_of_mem_branchParts {part branch : Expr} (h : part ∈ branch.branchParts) :
    part ∈ branch.subterms := by
  cases branch with
  | case mark value body =>
    rcases List.mem_append.1 h with h | h
    · exact mem_subterms_of_mem_children (List.mem_append_left body h)
    · obtain rfl := List.mem_singleton.1 h
      exact mem_subterms_self _
  | _ => cases h

theorem mem_subterms_of_mem_checkedParts {part whole : Expr} (h : part ∈ whole.checkedParts) :
    part ∈ whole.subterms := by
  cases whole with
  | switch mark subject cases =>
    rcases List.mem_cons.1 h with rfl | h
    · exact mem_subterms_of_mem_children (.head _)
    · obtain ⟨branch, hbranch, hpart⟩ := List.mem_flatMap.1 h
      have hwhole : branch ∈ (switch mark subject cases).children := .tail _ hbranch
      exact mem_subterms_trans (mem_subterms_of_mem_branchParts hpart)
        (mem_subterms_of_mem_children hwhole)
  | case mark value body =>
    exact mem_subterms_of_mem_children (List.mem_append_right value.toList h)
  | _ => exact mem_subterms_of_mem_children h

theorem mem_subterms_of_mem_checked {item whole : Expr} (h : item ∈ whole.checked) :
    item ∈ whole.subterms := by
  induction hsize : sizeOf whole using Nat.strongRecOn generalizing whole with
  | ind size ih =>
    subst hsize
    rw [checked_eq] at h
    rcases List.mem_cons.1 h with rfl | h
    · exact mem_subterms_self _
    · obtain ⟨part, hpart, hitem⟩ := List.mem_flatMap.1 h
      exact mem_subterms_trans (ih _ (sizeOf_lt_of_mem_checkedParts hpart) hitem rfl)
        (mem_subterms_of_mem_checkedParts hpart)

/-- Numbers of the values of all stray cases inside an expression. -/
def strayNumbers (whole : Expr) : List Nat :=
  whole.subterms.flatMap fun item => (caseValues item.strayCases).map id

theorem strayNumbers_eq (whole : Expr) :
    whole.strayNumbers = (caseValues whole.strayCases).map id ++
      whole.children.flatMap strayNumbers := by
  unfold strayNumbers
  rw [subterms_eq, List.flatMap_cons, List.flatMap_assoc]

/-- Numbers that are recorded for an expression, those of stray values inside it, and that of its
own value if it is a case. -/
def covered (whole : Expr) : List Nat :=
  whole.checked.map id ++ (whole.caseValue?.toList.map id ++ whole.strayNumbers)

theorem caseValues_filter (items : List Expr) :
    caseValues (items.filter fun item => item.caseValue?.isSome) =
      items.flatMap fun item => item.caseValue?.toList := by
  unfold caseValues
  induction items with
  | nil => rfl
  | cons item items ih => cases hvalue : item.caseValue? <;> simp [hvalue, ih]

theorem count_covered (whole : Expr) (number : Nat) :
    whole.covered.count number = [whole.id].count number +
      (whole.checkedParts.flatMap fun part => part.checked.map id).count number +
      (whole.caseValue?.toList.map id).count number +
      ((caseValues whole.strayCases).map id).count number +
      (whole.children.flatMap strayNumbers).count number := by
  unfold covered
  rw [checked_eq, strayNumbers_eq, List.map_cons, List.map_flatMap, List.cons_append,
    ← List.singleton_append, List.count_append, List.count_append, List.count_append,
    List.count_append]
  omega

theorem count_numbers (whole : Expr) (number : Nat) :
    whole.numbers.count number = [whole.id].count number +
      (whole.children.flatMap numbers).count number := by
  rw [numbers_eq, ← List.singleton_append, List.count_append]

/-- Parts that are not checked by a switch around them. -/
theorem count_parts_le {parts : List Expr} {number : Nat}
    (h : ∀ part ∈ parts, part.covered.count number ≤ part.numbers.count number) :
    (parts.flatMap fun part => part.checked.map id).count number +
      ((caseValues (parts.filter fun part => part.caseValue?.isSome)).map id).count number +
      (parts.flatMap strayNumbers).count number ≤ (parts.flatMap numbers).count number := by
  have hall := count_flatMap_le h
  unfold covered at hall
  rw [count_flatMap_append, count_flatMap_append] at hall
  rw [caseValues_filter, List.map_flatMap]
  omega

theorem count_case_le {mark : Mark} {value : Option Expr} {body : List Expr} {number : Nat}
    (h : ∀ part ∈ (case mark value body).children,
      part.covered.count number ≤ part.numbers.count number) :
    (value.toList.flatMap fun part => part.checked.map id).count number +
      ((case mark value body).checked.map id).count number +
      (case mark value body).strayNumbers.count number ≤
        (case mark value body).numbers.count number := by
  obtain ⟨hvalue, hbody⟩ := List.forall_mem_append.1 h
  have hvalue := count_parts_le hvalue
  have hbody := count_parts_le hbody
  have hchecked : ((case mark value body).checked.map id).count number =
      [(case mark value body).id].count number +
        (body.flatMap fun part => part.checked.map id).count number := by
    rw [checked_eq, List.map_cons, List.map_flatMap, ← List.singleton_append, List.count_append]
    rfl
  have hstray : (case mark value body).strayNumbers.count number =
      ((caseValues (value.toList.filter fun part => part.caseValue?.isSome)).map id).count number +
        ((caseValues (body.filter fun part => part.caseValue?.isSome)).map id).count number +
        (value.toList.flatMap strayNumbers).count number +
        (body.flatMap strayNumbers).count number := by
    rw [strayNumbers_eq]
    simp only [strayCases, children, caseValues, List.filter_append, List.filterMap_append,
      List.map_append, List.flatMap_append, List.count_append]
    omega
  have hnumbers := count_numbers (case mark value body) number
  simp only [children, List.flatMap_append, List.count_append] at hnumbers
  omega

theorem count_branchParts_le {branch : Expr} {number : Nat}
    (h : ∀ part ∈ branch.children, part.covered.count number ≤ part.numbers.count number)
    (hbranch : branch.covered.count number ≤ branch.numbers.count number) :
    ((branch.branchParts.flatMap fun part => part.checked.map id) ++
      branch.strayNumbers).count number ≤ branch.numbers.count number := by
  rw [List.count_append]
  cases branch with
  | case mark value body =>
    have hcase := count_case_le h
    simp only [branchParts, List.flatMap_append, List.flatMap_singleton, List.count_append]
    omega
  | _ =>
    unfold covered at hbranch
    rw [List.count_append, List.count_append] at hbranch
    simp only [branchParts, List.flatMap_nil, List.count_nil]
    omega

/-- What is covered in an expression is part of it, each number as often as it stands there. -/
theorem count_covered_le (whole : Expr) (number : Nat) :
    whole.covered.count number ≤ whole.numbers.count number := by
  induction hsize : sizeOf whole using Nat.strongRecOn generalizing whole with
  | ind size ih =>
    subst hsize
    have hchildren : ∀ part ∈ whole.children,
        part.covered.count number ≤ part.numbers.count number :=
      fun part hpart => ih _ (sizeOf_lt_of_mem_children hpart) part rfl
    rw [count_covered, count_numbers]
    cases whole with
    | switch mark subject cases =>
      obtain ⟨hsubject, hcases⟩ := List.forall_mem_cons.1 hchildren
      have hsubject := count_parts_le (List.forall_mem_singleton.2 hsubject)
      -- Values of cases are two levels down, where the switch checks them.
      have hbranches : ∀ branch ∈ cases, ∀ part ∈ branch.children,
          part.covered.count number ≤ part.numbers.count number := by
        intro branch hbranch part hpart
        have hlt : sizeOf branch < sizeOf (switch mark subject cases) :=
          sizeOf_lt_of_mem_children (.tail _ hbranch)
        exact ih _ (Nat.lt_trans (sizeOf_lt_of_mem_children hpart) hlt) part rfl
      have hall : _ ≤ (cases.flatMap numbers).count number :=
        count_flatMap_le fun branch hbranch =>
          count_branchParts_le (hbranches branch hbranch) (hcases branch hbranch)
      rw [count_flatMap_append] at hall
      simp only [strayCases, checkedParts, children, caseValue?, List.flatMap_cons,
        List.flatMap_nil, List.flatMap_assoc, List.count_append, List.append_nil,
        Option.toList_none, List.map_nil, List.count_nil] at hsubject hall ⊢
      omega
    | case mark value body =>
      have hcase := count_case_le hchildren
      have hvalue : (value.toList.map id).count number ≤
          (value.toList.flatMap fun part => part.checked.map id).count number := by
        cases value with
        | none => exact Nat.le_refl _
        | some item =>
          rw [Option.toList_some, List.flatMap_singleton, checked_eq]
          exact List.Sublist.count_le number (.cons_cons _ (List.nil_sublist _))
      have hcovered := count_covered (case mark value body) number
      have hnumbers := count_numbers (case mark value body) number
      unfold covered at hcovered
      rw [List.count_append, List.count_append] at hcovered
      simp only [caseValue?] at hcovered ⊢
      omega
    | _ =>
      have hparts := count_parts_le hchildren
      simp only [caseValue?, Option.toList_none, List.map_nil, List.count_nil]
      simp only [strayCases, checkedParts]
      omega

theorem caseValue?_eq_none {items : List Expr}
    (h : (items.filter fun item => item.caseValue?.isSome) = []) :
    ∀ item ∈ items, item.caseValue? = none := by
  intro item hitem
  have hvalue := List.filter_eq_nil_iff.1 h item hitem
  cases hcase : item.caseValue? with
  | none => rfl
  | some value => exact absurd (by rw [hcase]; rfl) hvalue

/-- Without stray cases, everything inside an expression is checked: along with it or, if it is
the value of a case, along with the switch around that. -/
theorem mem_checked_of_mem_subterms {whole : Expr}
    (hstray : ∀ item ∈ whole.subterms, item.strayCases = [])
    (hregular : ∀ item ∈ whole.subterms, item.Regular) :
    ∀ item ∈ whole.subterms,
      item ∈ whole.checked ∨ ∃ value, whole.caseValue? = some value ∧ item ∈ value.checked := by
  induction hsize : sizeOf whole using Nat.strongRecOn generalizing whole with
  | ind size ih =>
    subst hsize
    have hchild : ∀ child ∈ whole.children, ∀ item ∈ child.subterms, item ∈ child.checked ∨
        ∃ value, child.caseValue? = some value ∧ item ∈ value.checked := by
      intro child hmem
      have hinside : ∀ item ∈ child.subterms, item ∈ whole.subterms := by
        intro item hitem
        rw [subterms_eq]
        exact List.mem_cons_of_mem _ (List.mem_flatMap.2 ⟨child, hmem, hitem⟩)
      exact ih _ (sizeOf_lt_of_mem_children hmem)
        (fun item hitem => hstray item (hinside item hitem))
        (fun item hitem => hregular item (hinside item hitem)) rfl
    have hpart : ∀ part ∈ whole.checkedParts, ∀ item ∈ part.checked, item ∈ whole.checked := by
      intro part hmem item hitem
      rw [checked_eq]
      exact List.mem_cons_of_mem _ (List.mem_flatMap.2 ⟨part, hmem, hitem⟩)
    have hown := hstray whole (mem_subterms_self whole)
    intro item hitem
    rw [subterms_eq] at hitem
    rcases List.mem_cons.1 hitem with rfl | hitem
    · rw [checked_eq]
      exact .inl List.mem_cons_self
    · obtain ⟨child, hmem, hitem⟩ := List.mem_flatMap.1 hitem
      have hfound := hchild child hmem item hitem
      have hdirect (hvalue : child.caseValue? = none) : item ∈ child.checked := by
        simpa [hvalue] using hfound
      cases whole with
      | switch mark subject cases =>
        rcases List.mem_cons.1 hmem with rfl | hbranch
        · have hvalue := caseValue?_eq_none hown child List.mem_cons_self
          exact .inl (hpart child List.mem_cons_self item (hdirect hvalue))
        · have hcase := hregular _ (mem_subterms_self _) child hbranch
          cases child with
          | case place value body =>
            have hparts : ∀ part ∈ value.toList ++ [case place value body],
                part ∈ (switch mark subject cases).checkedParts := fun part hmem =>
              List.mem_cons_of_mem _ (List.mem_flatMap.2 ⟨_, hbranch, hmem⟩)
            rcases hfound with hitem | ⟨part, hvalue, hitem⟩
            · exact .inl (hpart _ (hparts _ (List.mem_append_right _ List.mem_cons_self)) item hitem)
            · have hmem := List.mem_append_left [case place value body] (Option.mem_toList.2 hvalue)
              exact .inl (hpart part (hparts part hmem) item hitem)
          | _ => cases hcase
      | case mark value body =>
        have hitem := hdirect (caseValue?_eq_none hown child hmem)
        rcases List.mem_append.1 hmem with hmem | hmem
        · exact .inr ⟨child, Option.mem_toList.1 hmem, hitem⟩
        · exact .inl (hpart child hmem item hitem)
      | _ =>
        have hitem := hdirect (caseValue?_eq_none hown child hmem)
        exact .inl (hpart child hmem item hitem)

end Expr

namespace Node

def strayNumbers (node : Node) : List Nat :=
  node.walk.flatMap fun item => (Expr.caseValues item.strayCases).map Expr.id

theorem strayNumbers_eq (node : Node) :
    node.strayNumbers = (Expr.caseValues node.strayCases).map Expr.id ++
      node.children.flatMap strayNumbers := by
  unfold strayNumbers
  rw [walk_eq, List.flatMap_cons, List.flatMap_assoc]

theorem strayNumbers_expression (whole : Expr) :
    (Node.expression whole).strayNumbers = whole.strayNumbers :=
  Expr.flatMap_walk_subterms (fun item => (Expr.caseValues item.strayCases).map Expr.id)
    (fun _ _ => rfl) whole

/-- Numbers that are recorded for a node, those of stray values below it, and that of its own
value if it is a case. -/
def covered (node : Node) : List Nat :=
  node.recorded ++ ((node.expression?.bind Expr.caseValue?).toList.map Expr.id ++
    node.strayNumbers)

theorem count_strayCases_le (node : Node) (number : Nat) (h : node.expression? = none) :
    ((Expr.caseValues node.strayCases).map Expr.id).count number ≤
      (node.children.flatMap fun child =>
        (child.expression?.bind Expr.caseValue?).toList.map Expr.id).count number := by
  have hvalues : (Expr.caseValues ((node.children.filterMap expression?).filter
      fun item => item.caseValue?.isSome)).map Expr.id = node.children.flatMap fun child =>
        (child.expression?.bind Expr.caseValue?).toList.map Expr.id := by
    rw [Expr.caseValues_filter, List.map_flatMap, List.filterMap_eq_flatMap_toList,
      List.flatMap_assoc]
    apply List.flatMap_congr
    intro child _
    cases child.expression? <;> simp
  cases node with
  | expression => cases h
  | body => exact Nat.zero_le _
  | _ => exact Nat.le_of_eq (congrArg (List.count number) hvalues)

theorem count_covered_le (node : Node) (number : Nat) :
    node.covered.count number ≤ node.numbers.count number := by
  induction hsize : sizeOf node using Nat.strongRecOn generalizing node with
  | ind size ih =>
    subst hsize
    cases hexpression : node.expression? with
    | some item =>
      obtain rfl := eq_of_expression? hexpression
      have hitem := Expr.count_covered_le item number
      unfold covered
      rw [recorded_expression, strayNumbers_expression, Expr.numbers_expression]
      exact hitem
    | none =>
      have hall : _ ≤ (node.children.flatMap numbers).count number :=
        count_flatMap_le fun child hchild => ih _ (sizeOf_lt_of_mem_children hchild) child rfl
      unfold covered at hall ⊢
      rw [count_flatMap_append, count_flatMap_append] at hall
      have hstray := count_strayCases_le node number hexpression
      rw [recorded_eq node hexpression, strayNumbers_eq, numbers_eq, hexpression]
      simp only [Option.bind_none, Option.toList_none, List.map_nil, List.nil_append,
        List.count_append] at hall hstray ⊢
      omega

/-- Recorded numbers and those of stray values are numbers of different nodes. -/
theorem subperm_numbers (node : Node) :
    (node.recorded ++ node.strayNumbers).Subperm node.numbers := by
  apply List.subperm_iff_count.2
  intro number
  have hcovered := count_covered_le node number
  unfold covered at hcovered
  simp only [List.count_append] at hcovered ⊢
  omega

theorem exists_of_mem_walk_expression {whole : Expr} {node : Node}
    (h : node ∈ (Node.expression whole).walk) (htyped : node.isTyped = true) :
    ∃ item ∈ whole.subterms, node = .expression item := by
  have hmem : node ∈ (Node.expression whole).walk.flatMap
      fun item => if item.isTyped then [item] else [] :=
    List.mem_flatMap.2 ⟨node, h, by simp [htyped]⟩
  rw [Expr.flatMap_walk_subterms _ fun _ _ => rfl] at hmem
  obtain ⟨item, hitem, hnode⟩ := List.mem_flatMap.1 hmem
  exact ⟨item, hitem, List.mem_singleton.1 hnode⟩

theorem ne_body_of_mem_children {node child : Node} (hnode : node.expression? = none)
    (h : child ∈ node.children) (reference : Reference) (lines : List Expr) :
    child ≠ .body reference lines := by
  rintro rfl
  cases node with
  | expression => cases hnode
  | scenario decl =>
    rcases hfunction : decl.function with _ | ⟨name, place⟩ | inner <;>
      simp [children, ofScenario, hfunction, ofTestedFunction] at h
  | _ => simp [children] at h

theorem caseValue?_eq_none_of_mem_children {node child : Node} (hnode : node.expression? = none)
    (hbody : ∀ reference lines, node ≠ .body reference lines) (hstray : node.strayCases = [])
    (h : child ∈ node.children) : child.expression?.bind Expr.caseValue? = none := by
  have hnone : ∀ item ∈ node.children.filterMap expression?, item.caseValue? = none := by
    refine Expr.caseValue?_eq_none ?_
    cases node with
    | expression => cases hnode
    | body reference lines => exact absurd rfl (hbody reference lines)
    | _ => exact hstray
  cases hexpression : child.expression? with
  | none => rfl
  | some item => exact hnone item (List.mem_filterMap.2 ⟨child, h, hexpression⟩)

/-- What is checked along with a node is below it. -/
theorem mem_walk_of_mem_checked {item node : Node} (h : item ∈ node.checked) :
    item ∈ node.walk := by
  induction hsize : sizeOf node using Nat.strongRecOn generalizing node with
  | ind size ih =>
    subst hsize
    cases hexpression : node.expression? with
    | some whole =>
      obtain rfl := eq_of_expression? hexpression
      rw [checked_expression] at h
      obtain ⟨found, hfound, rfl⟩ := List.mem_map.1 h
      exact mem_walk_of_mem_subterms (Expr.mem_subterms_of_mem_checked hfound)
    | none =>
      rw [checked_eq node hexpression] at h
      rcases List.mem_append.1 h with h | h
      · by_cases htyped : node.isTyped = true
        · rw [if_pos htyped] at h
          obtain rfl := List.mem_singleton.1 h
          exact mem_walk_self item
        · rw [if_neg htyped] at h
          cases h
      · obtain ⟨child, hchild, h⟩ := List.mem_flatMap.1 h
        exact mem_walk_of_mem_children hchild (ih _ (sizeOf_lt_of_mem_children hchild) h rfl)

theorem mem_checked_of_mem_walk {node : Node}
    (hbody : ∀ reference lines, node ≠ .body reference lines)
    (hvalue : node.expression?.bind Expr.caseValue? = none)
    (hstray : node.Everywhere fun item => item.strayCases = []) (hregular : node.Everywhere Regular)
    {item : Node} (h : item ∈ node.walk) (htyped : item.isTyped = true) : item ∈ node.checked := by
  induction hsize : sizeOf node using Nat.strongRecOn generalizing node with
  | ind size ih =>
    subst hsize
    cases hexpression : node.expression? with
    | some whole =>
      obtain rfl := eq_of_expression? hexpression
      obtain ⟨found, hfound, rfl⟩ := exists_of_mem_walk_expression h htyped
      rw [checked_expression]
      rcases Expr.mem_checked_of_mem_subterms
        (fun sub hsub => hstray _ (mem_walk_of_mem_subterms hsub))
        (fun sub hsub => hregular _ (mem_walk_of_mem_subterms hsub)) found hfound with
        hchecked | ⟨value, hcase, _⟩
      · exact List.mem_map_of_mem hchecked
      · exact absurd (hvalue.symm.trans hcase) (by simp)
    | none =>
      obtain ⟨hown, hchildren⟩ := everywhere_iff.1 hstray
      obtain ⟨_, hregular⟩ := everywhere_iff.1 hregular
      rw [checked_eq node hexpression]
      rw [walk_eq] at h
      rcases List.mem_cons.1 h with rfl | h
      · exact List.mem_append_left _ (by simp [htyped])
      · obtain ⟨child, hchild, h⟩ := List.mem_flatMap.1 h
        refine List.mem_append_right _ (List.mem_flatMap.2 ⟨child, hchild, ?_⟩)
        exact ih _ (sizeOf_lt_of_mem_children hchild) (ne_body_of_mem_children hexpression hchild)
          (caseValue?_eq_none_of_mem_children hexpression hbody hown hchild)
          (hchildren child hchild) (hregular child hchild) h rfl

end Node

end DecisionLang
