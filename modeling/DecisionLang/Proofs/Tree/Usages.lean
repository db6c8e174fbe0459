import DecisionLang.Dependency.Reference
import DecisionLang.Proofs.Tree.Numbers
import DecisionLang.Proofs.Tree.Places
import DecisionLang.Tree.Usage

/-!
# Variables and names of an expression

Three readings of one expression go the same way: the walk over nodes, in which bodies are nodes of
their own, the recursion over the parts of an expression, in which the lines of bodies are parts, and
the collection of the variables that are touched. So whatever is read or assigned to has its root
among the names that the expression refers to. Main statement: `Node.walk_usages`.
-/

namespace DecisionLang

namespace Expr

def preorder (whole : Expr) : List Expr :=
  whole :: whole.children.attach.flatMap fun ⟨part, _⟩ => preorder part
termination_by sizeOf whole
decreasing_by exact sizeOf_lt_of_mem_children ‹_›

/-- The variable that an expression is, if it is nothing else. -/
def namedPath? : Expr → Option NamePath
  | name _ word => some (.ofName word)
  | path _ names => some names
  | _ => none

/-- The variable that an assignment is made to. -/
def target? : Expr → Option NamePath
  | assign _ target _ => target.namedPath?
  | _ => none

/-- The variable that an expression declares. -/
def declared? : Expr → Option NamePath
  | declare _ _ declared _ => some (.ofName declared)
  | _ => none

/-- Variables that an expression assigns to, anywhere in it. -/
def targets (whole : Expr) : List NamePath := whole.preorder.filterMap target?

/-- Variables that an expression declares, anywhere in it. -/
def declarations (whole : Expr) : List NamePath := whole.preorder.filterMap declared?

variable {whole part : Expr} {access : Access} {path : NamePath}

theorem children_induction {P : Expr → Prop}
    (step : ∀ whole : Expr, (∀ part ∈ whole.children, P part) → P whole) (whole : Expr) : P whole :=
  step whole fun part _ => children_induction step part
termination_by sizeOf whole
decreasing_by exact sizeOf_lt_of_mem_children ‹_›

theorem preorder_eq (whole : Expr) : whole.preorder = whole :: whole.children.flatMap preorder := by
  rw [preorder]
  simp

/-- The expressions that a walk meets below an expression are its parts, in the same order. -/
theorem subterms_eq_preorder : subterms = preorder := by
  funext whole
  induction whole using children_induction with
  | step whole ih =>
    rw [subterms_eq, preorder_eq]
    exact congrArg _ (List.flatMap_congr ih)

theorem filterMap_preorder {α : Type} (f : Expr → Option α) (whole : Expr) :
    whole.preorder.filterMap f =
      (f whole).toList ++ whole.children.flatMap fun part => part.preorder.filterMap f := by
  rw [preorder_eq, List.filterMap_cons, List.filterMap_flatMap]
  cases f whole <;> rfl

/-! ### Usages -/

theorem usagesInAll_eq (items : List Expr) : usagesInAll items = items.flatMap (usagesAs .read) := by
  induction items with
  | nil => rfl
  | cons item items ih => rw [usagesInAll, ih, List.flatMap_cons]

theorem usagesIn?_eq (item : Option Expr) :
    usagesIn? item = item.toList.flatMap (usagesAs .read) := by
  cases item with
  | none => rfl
  | some item => simp [usagesIn?]

/-- Usages of an expression are its own and those of its parts; a part is read, unless it is the
target of an assignment. -/
theorem usagesAs_eq (access : Access) (h : ¬ ∃ mark target value, whole = .assign mark target value) :
    whole.usagesAs access =
      (whole.namedPath?.map (⟨·, access⟩)).toList ++ (whole.declared?.map (⟨·, .write⟩)).toList ++
        whole.children.flatMap (usagesAs .read) := by
  cases whole with
  | assign mark target value => exact absurd ⟨mark, target, value, rfl⟩ h
  | _ => simp [usagesAs, usagesInAll_eq, usagesIn?_eq, namedPath?, declared?, children]

theorem mem_targets_iff :
    path ∈ whole.targets ↔ whole.target? = some path ∨ ∃ part ∈ whole.children, path ∈ part.targets := by
  unfold targets
  rw [filterMap_preorder, List.mem_append, Option.mem_toList, List.mem_flatMap]

theorem mem_declarations_iff : path ∈ whole.declarations ↔
    whole.declared? = some path ∨ ∃ part ∈ whole.children, path ∈ part.declarations := by
  unfold declarations
  rw [filterMap_preorder, List.mem_append, Option.mem_toList, List.mem_flatMap]

theorem mem_preorder_of_mem_children {item : Expr} (hpart : part ∈ whole.children)
    (h : item ∈ part.preorder) : item ∈ whole.preorder := by
  rw [preorder_eq]
  exact List.mem_cons_of_mem _ (List.mem_flatMap.2 ⟨part, hpart, h⟩)

theorem mem_preorder_self (whole : Expr) : whole ∈ whole.preorder := by
  rw [preorder_eq]
  exact List.mem_cons_self

theorem exists_of_read_mem_usagesAs (h : ⟨path, .read⟩ ∈ whole.usagesAs access) :
    ∃ part ∈ whole.preorder, part.namedPath? = some path := by
  induction whole using children_induction generalizing access with
  | step whole ih =>
    have hpart {part : Expr} {access : Access} (hpart : part ∈ whole.children)
        (h : ⟨path, .read⟩ ∈ part.usagesAs access) :
        ∃ part ∈ whole.preorder, part.namedPath? = some path := by
      obtain ⟨inner, hinner, hpath⟩ := ih part hpart h
      exact ⟨inner, mem_preorder_of_mem_children hpart hinner, hpath⟩
    by_cases hassign : ∃ mark target value, whole = .assign mark target value
    · obtain ⟨mark, target, value, rfl⟩ := hassign
      rw [usagesAs, List.mem_append] at h
      rcases h with h | h
      · exact hpart (by simp [children]) h
      · exact hpart (by simp [children]) h
    · rw [usagesAs_eq access hassign, List.mem_append, List.mem_append] at h
      rcases h with (h | h) | h
      · obtain ⟨hpath, _⟩ : whole.namedPath? = some path ∧ access = .read := by simpa using h
        exact ⟨whole, mem_preorder_self whole, hpath⟩
      · simp at h
      · obtain ⟨part, hmem, h⟩ := List.mem_flatMap.1 h
        exact hpart hmem h

/-- What is written is what is assigned to and what is declared. -/
theorem write_mem_usagesAs_iff : ⟨path, .write⟩ ∈ whole.usagesAs access ↔
    access = .write ∧ whole.namedPath? = some path ∨ path ∈ whole.targets ∨
      path ∈ whole.declarations := by
  induction whole using children_induction generalizing access with
  | step whole ih =>
    rw [mem_targets_iff, mem_declarations_iff]
    by_cases hassign : ∃ mark target value, whole = .assign mark target value
    · obtain ⟨mark, target, value, rfl⟩ := hassign
      rw [usagesAs, List.mem_append, ih target (by simp [children]), ih value (by simp [children])]
      simp only [namedPath?, target?, declared?, children, List.mem_cons, List.not_mem_nil]
      grind
    · rw [usagesAs_eq access hassign, List.mem_append, List.mem_append, List.mem_flatMap]
      have htarget : whole.target? = none := by
        cases whole with
        | assign mark target value => exact absurd ⟨mark, target, value, rfl⟩ hassign
        | _ => rfl
      have hparts : (∃ part ∈ whole.children, ⟨path, .write⟩ ∈ part.usagesAs .read) ↔
          (∃ part ∈ whole.children, path ∈ part.targets) ∨
            ∃ part ∈ whole.children, path ∈ part.declarations := by
        rw [← exists_or]
        refine exists_congr fun part => ?_
        rw [← and_or_left]
        refine and_congr_right fun hmem => ?_
        rw [ih part hmem]
        simp
      rw [hparts, htarget]
      simp only [Option.mem_toList, Option.map_eq_some_iff, Usage.mk.injEq]
      grind

theorem exists_of_mem_targets (h : path ∈ whole.targets) :
    ∃ part ∈ whole.preorder, part.namedPath? = some path := by
  induction whole using children_induction with
  | step whole ih =>
    rcases mem_targets_iff.1 h with h | ⟨part, hpart, h⟩
    · cases whole with
      | assign mark target value =>
        have htarget : target ∈ (assign mark target value).children := by simp [children]
        exact ⟨target, mem_preorder_of_mem_children htarget (mem_preorder_self target), h⟩
      | _ => cases h
    · obtain ⟨inner, hinner, hpath⟩ := ih part hpart h
      exact ⟨inner, mem_preorder_of_mem_children hpart hinner, hpath⟩

/-! ### Names -/

theorem referredName?_of_namedPath? (h : whole.namedPath? = some path) :
    whole.referredName? = some path.root := by
  cases whole with
  | name mark word | path mark names =>
    cases h
    rfl
  | _ => cases h

end Expr

namespace Node

/-- The names that a node and everything below it refer to, each once and in the order of the
source. -/
def referredNames (node : Node) : List String := (node.walk.filterMap referredName?).eraseDups

theorem mem_referredNames_iff {node : Node} {name : String} :
    name ∈ node.referredNames ↔ ∃ item ∈ node.walk, item.referredName? = some name := by
  rw [referredNames, List.mem_eraseDups, List.mem_filterMap]

/-- The root of a variable that stands in an expression is a name that the expression refers to. -/
theorem root_mem_referredNames {whole part : Expr} {path : NamePath} (hpart : part ∈ whole.preorder)
    (hpath : part.namedPath? = some path) : path.root ∈ (expression whole).referredNames := by
  rw [← Expr.subterms_eq_preorder, Expr.subterms, List.mem_filterMap] at hpart
  obtain ⟨item, hitem, hpart⟩ := hpart
  refine mem_referredNames_iff.2 ⟨item, hitem, ?_⟩
  cases item with
  | expression inner =>
    cases hpart
    exact Expr.referredName?_of_namedPath? hpath
  | _ => cases hpart

/-- A walk visits the place of every node once, in the order in which the tree is listed by recursion.
In an expression it meets the expressions that are listed by recursion over its parts, so whatever
the expression reads or assigns to has its root among the names that it refers to, and with it the
declaration that it stands in. All else that is written is declared by it. -/
theorem walk_usages (node : Node) (whole : Expr) :
    (node.walk = node.preorder ∧ ∃ places, VisitsAt node.at? node.walk places) ∧
      (expression whole).walk.filterMap expression? = whole.preorder ∧
      (∀ path, ⟨path, .read⟩ ∈ whole.usages → path.root ∈ (expression whole).referredNames) ∧
      (∀ path, ⟨path, .write⟩ ∈ whole.usages ↔ path ∈ whole.targets ∨ path ∈ whole.declarations) ∧
      (∀ path ∈ whole.targets, path.root ∈ (expression whole).referredNames) ∧
      ∀ declaration : Declaration, expression whole ∈ (ofDeclaration declaration).walk →
        ∀ name ∈ (expression whole).referredNames, name ∈ declaration.referredNames := by
  refine ⟨⟨congrFun walk_eq_preorder node, node.exists_places⟩,
    congrFun Expr.subterms_eq_preorder whole, fun path hread => ?_, fun path => ?_,
    fun path htarget => ?_, fun declaration hwhole name hname => ?_⟩
  · obtain ⟨part, hpart, hpath⟩ := Expr.exists_of_read_mem_usagesAs hread
    exact root_mem_referredNames hpart hpath
  · rw [Expr.usages, Expr.write_mem_usagesAs_iff]
    simp
  · obtain ⟨part, hpart, hpath⟩ := Expr.exists_of_mem_targets htarget
    exact root_mem_referredNames hpart hpath
  · obtain ⟨item, hitem, hname⟩ := mem_referredNames_iff.1 hname
    exact mem_referredNames_iff.2 ⟨item, mem_walk_trans hitem hwhole, hname⟩

/-- A branch that sets a member of one variable to another variable. -/
def payWhenReady : Expr :=
  .ifThen ⟨0, ⟨"test.lexy", 3, 5⟩⟩ (.name ⟨1, ⟨"test.lexy", 3, 8⟩⟩ "Ready")
    [.assign ⟨2, ⟨"test.lexy", 4, 7⟩⟩ (.path ⟨3, ⟨"test.lexy", 4, 7⟩⟩ ⟨"Pay", ["Net"]⟩)
      (.name ⟨4, ⟨"test.lexy", 4, 17⟩⟩ "Rate")] []

/-- The names of both variables are found in the body of the branch, and in the function around it. -/
theorem walk_usages_payWhenReady :
    ⟨NamePath.ofName "Rate", .read⟩ ∈ payWhenReady.usages ∧
      ⟨"Pay", ["Net"]⟩ ∈ payWhenReady.targets ∧
      "Rate" ∈ (expression payWhenReady).referredNames ∧
      "Pay" ∈ (expression payWhenReady).referredNames ∧
      "Pay" ∈ (Declaration.function ⟨"Settle", ⟨"test.lexy", 1, 1⟩, none, none,
        some ⟨⟨"test.lexy", 2, 3⟩, [payWhenReady]⟩⟩).referredNames := by
  have hread : ⟨NamePath.ofName "Rate", .read⟩ ∈ payWhenReady.usages := by decide +kernel
  have htarget : ⟨"Pay", ["Net"]⟩ ∈ payWhenReady.targets := by decide +kernel
  let settle : Declaration := .function ⟨"Settle", ⟨"test.lexy", 1, 1⟩, none, none,
    some ⟨⟨"test.lexy", 2, 3⟩, [payWhenReady]⟩⟩
  have hinside : expression payWhenReady ∈ (ofDeclaration settle).walk :=
    mem_walk_of_mem_children List.mem_cons_self <|
      mem_walk_of_mem_children List.mem_cons_self (mem_walk_self _)
  obtain ⟨_, _, hreads, _, htargets, hdeclaration⟩ :=
    walk_usages (ofDeclaration settle) payWhenReady
  exact ⟨hread, htarget, hreads _ hread, htargets _ htarget,
    hdeclaration settle hinside _ (htargets _ htarget)⟩

end Node

end DecisionLang
