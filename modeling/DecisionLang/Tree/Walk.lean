import DecisionLang.Tree.Node

/-!
# Walking over all parts

`Node.walk` lists a node and everything below it, each node before its parts and parts in source
order. It works off a stack of nodes, where a node that is visited gives way to its parts. Parts are
smaller than what they are part of (`Node.sizeOf_lt_of_mem_children`), so a tree can also be listed by
recursion, and a walk ends because it visits no more nodes than that. Main statement: `Node.walk_eq`.
-/

namespace DecisionLang

theorem Expr.sizeOf_lt_of_mem_children {part whole : Expr} (h : part ∈ whole.children) :
    sizeOf part < sizeOf whole := by
  cases whole with
  | literal | name | path | make | spread => simp [children] at h
  | binary _ left _ right | assign _ left right =>
    simp only [children, List.mem_cons, List.not_mem_nil, or_false] at h
    rcases h with rfl | rfl <;> decreasing_tactic
  | group _ inner | indexed _ _ inner | extract _ inner | spreadAssign _ inner =>
    simp only [children, List.mem_singleton] at h
    subst h
    decreasing_tactic
  | declare _ _ _ default =>
    simp only [children, Option.mem_toList] at h
    subst h
    simp
    omega
  | lookUp _ _ _ _ discriminator value =>
    simp only [children, List.mem_append, Option.mem_toList, List.mem_singleton] at h
    rcases h with rfl | rfl <;> decreasing_tactic
  | call _ _ arguments =>
    have := List.sizeOf_lt_of_mem (show part ∈ arguments from h)
    simp only [call.sizeOf_spec]
    omega
  | ifThen _ condition body alternatives =>
    simp only [children, List.cons_append, List.mem_cons, List.mem_append] at h
    simp only [ifThen.sizeOf_spec]
    rcases h with rfl | h | h
    · omega
    · have := List.sizeOf_lt_of_mem h
      omega
    · have := List.sizeOf_lt_of_mem h
      omega
  | elseIf _ condition body | switch _ condition body =>
    simp only [children, List.mem_cons] at h
    simp only [elseIf.sizeOf_spec, switch.sizeOf_spec]
    rcases h with rfl | h
    · omega
    · have := List.sizeOf_lt_of_mem h
      omega
  | otherwise _ body =>
    have := List.sizeOf_lt_of_mem (show part ∈ body from h)
    simp only [otherwise.sizeOf_spec]
    omega
  | case _ value body =>
    simp only [children, List.mem_append, Option.mem_toList] at h
    simp only [case.sizeOf_spec]
    rcases h with rfl | h
    · simp only [Option.some.sizeOf_spec]
      omega
    · have := List.sizeOf_lt_of_mem h
      omega

/-- Parts that are expressions, each as a node. -/
theorem Expr.sizeOf_lt_of_mem_nodes {part : Node} {whole : Expr} (h : part ∈ whole.nodes) :
    sizeOf part < 1 + sizeOf whole := by
  have asChild {part : Node} (h : part ∈ whole.children.map Node.expression) :
      sizeOf part < 1 + sizeOf whole := by
    obtain ⟨child, hc, rfl⟩ := List.mem_map.1 h
    have := sizeOf_lt_of_mem_children hc
    simp only [Node.expression.sizeOf_spec]
    omega
  have markSize (mark : Mark) : sizeOf mark.reference < sizeOf mark := by
    cases mark
    simp only [Mark.mk.sizeOf_spec]
    omega
  cases whole with
  | ifThen mark condition body alternatives =>
    have := markSize mark
    simp only [nodes, List.mem_cons, List.mem_map] at h
    rcases h with rfl | rfl | ⟨alternative, ha, rfl⟩
    · decreasing_tactic
    · decreasing_tactic
    · have := List.sizeOf_lt_of_mem ha
      decreasing_tactic
  | elseIf mark condition body =>
    have := markSize mark
    simp only [nodes, List.mem_cons, List.not_mem_nil, or_false] at h
    rcases h with rfl | rfl <;> decreasing_tactic
  | otherwise mark body =>
    have := markSize mark
    simp only [nodes, List.mem_singleton] at h
    subst h
    decreasing_tactic
  | case mark value body =>
    have := markSize mark
    simp only [nodes, List.mem_append, List.mem_map, Option.mem_toList, List.mem_singleton] at h
    rcases h with ⟨item, rfl, rfl⟩ | rfl <;> decreasing_tactic
  | _ => exact asChild h

namespace Node

theorem sizeOf_lt_of_mem_option {α : Type} [SizeOf α] {part : Node} {toNode : α → Node}
    {item : Option α} {bound : Nat} (h : part ∈ (item.map toNode).toList)
    (hsize : ∀ x, sizeOf (toNode x) ≤ 2 + sizeOf x) (hbound : 1 + sizeOf item ≤ bound) :
    sizeOf part < 1 + bound := by
  simp only [Option.mem_toList, Option.map_eq_some_iff] at h
  obtain ⟨x, rfl, rfl⟩ := h
  have := hsize x
  simp only [Option.some.sizeOf_spec] at hbound
  omega

theorem sizeOf_lt_of_mem_map {α : Type} [SizeOf α] {part : Node} {toNode : α → Node}
    {items : List α} {bound : Nat} (h : part ∈ items.map toNode)
    (hsize : ∀ x, sizeOf (toNode x) ≤ 1 + sizeOf x) (hbound : sizeOf items ≤ bound) :
    sizeOf part < 1 + bound := by
  obtain ⟨x, hx, rfl⟩ := List.mem_map.1 h
  have := hsize x
  have := List.sizeOf_lt_of_mem hx
  omega

theorem sizeOf_lt_of_mem_expectations {block : ExpectedErrors} {decl : ScenarioDecl}
    (h : block ∈ decl.expectations) : sizeOf block + 1 < sizeOf decl := by
  simp only [ScenarioDecl.expectations, List.mem_filterMap, List.mem_cons, List.not_mem_nil,
    or_false] at h
  obtain ⟨_, h | h | h | h, rfl⟩ := h <;>
    (obtain ⟨⟩ := decl; simp only at h; subst h; decreasing_tactic)

theorem sizeOf_ofTestedFunction (tested : TestedFunction) :
    sizeOf (ofTestedFunction tested) ≤ 2 + sizeOf tested := by
  cases tested with
  | named function place =>
    simp only [ofTestedFunction, Node.testedFunction.sizeOf_spec]
    omega
  | inline decl =>
    simp only [ofTestedFunction, Node.function.sizeOf_spec, TestedFunction.inline.sizeOf_spec]
    omega

theorem sizeOf_lt_of_mem_children {part whole : Node} (h : part ∈ whole.children) :
    sizeOf part < sizeOf whole := by
  cases whole with
  | function decl =>
    obtain ⟨⟩ := decl
    simp only [children, List.mem_append] at h
    rcases h with (h | h) | h
    · exact sizeOf_lt_of_mem_option h (by simp) (by decreasing_tactic)
    · exact sizeOf_lt_of_mem_option h (by simp) (by decreasing_tactic)
    · exact sizeOf_lt_of_mem_option h (by decreasing_tactic) (by decreasing_tactic)
  | definitions role block =>
    obtain ⟨⟩ := block
    exact Nat.lt_of_lt_of_le (sizeOf_lt_of_mem_map h (by simp) (Nat.le_refl _))
      (by decreasing_tactic)
  | definition item =>
    obtain ⟨⟩ := item
    obtain ⟨x, hx, rfl⟩ := List.mem_map.1 h
    simp only [Option.mem_toList] at hx
    subst hx
    decreasing_tactic
  | code block =>
    obtain ⟨⟩ := block
    exact sizeOf_lt_of_mem_map h (by simp) (by decreasing_tactic)
  | enumeration decl =>
    obtain ⟨⟩ := decl
    exact sizeOf_lt_of_mem_map h (by simp) (by decreasing_tactic)
  | table decl =>
    obtain ⟨⟩ := decl
    simp only [children, List.mem_append] at h
    rcases h with h | h
    · exact sizeOf_lt_of_mem_option h (by decreasing_tactic) (by decreasing_tactic)
    · exact sizeOf_lt_of_mem_map h (by simp) (by decreasing_tactic)
  | header item =>
    obtain ⟨⟩ := item
    exact sizeOf_lt_of_mem_map h (by simp) (by decreasing_tactic)
  | row item =>
    obtain ⟨⟩ := item
    exact sizeOf_lt_of_mem_map h (by simp) (by decreasing_tactic)
  | record decl =>
    obtain ⟨⟩ := decl
    exact sizeOf_lt_of_mem_map h (by simp) (by decreasing_tactic)
  | assignments role block =>
    obtain ⟨⟩ := block
    exact Nat.lt_of_lt_of_le (sizeOf_lt_of_mem_map h (by simp) (Nat.le_refl _))
      (by decreasing_tactic)
  | validationTable item =>
    obtain ⟨⟩ := item
    exact sizeOf_lt_of_mem_map h (by simp) (by decreasing_tactic)
  | body reference expressions =>
    exact Nat.lt_of_lt_of_le (sizeOf_lt_of_mem_map h (by simp) (Nat.le_refl _))
      (by decreasing_tactic)
  | expression item => simpa using Expr.sizeOf_lt_of_mem_nodes h
  | enumMember | column | testedFunction | expectedErrors => simp [children] at h
  | scenario decl =>
    simp only [children, ofScenario, List.mem_append] at h
    rcases h with (((((h | h) | h) | h) | h) | h) | h
    · exact sizeOf_lt_of_mem_option h
        sizeOf_ofTestedFunction (by obtain ⟨⟩ := decl; decreasing_tactic)
    · exact sizeOf_lt_of_mem_option h
        (by decreasing_tactic) (by obtain ⟨⟩ := decl; decreasing_tactic)
    · exact sizeOf_lt_of_mem_option h
        (by decreasing_tactic) (by obtain ⟨⟩ := decl; decreasing_tactic)
    · exact sizeOf_lt_of_mem_option h (by simp) (by obtain ⟨⟩ := decl; decreasing_tactic)
    · exact sizeOf_lt_of_mem_option h (by simp) (by obtain ⟨⟩ := decl; decreasing_tactic)
    · exact sizeOf_lt_of_mem_option h
        (by decreasing_tactic) (by obtain ⟨⟩ := decl; decreasing_tactic)
    · obtain ⟨block, hb, rfl⟩ := List.mem_map.1 h
      have := sizeOf_lt_of_mem_expectations hb
      simp only [expectedErrors.sizeOf_spec, scenario.sizeOf_spec]
      omega

/-- The node and everything below it, by recursion into its parts. -/
def preorder (node : Node) : List Node :=
  node :: node.children.attach.flatMap fun ⟨part, _⟩ => preorder part
termination_by sizeOf node
decreasing_by exact sizeOf_lt_of_mem_children ‹_›

theorem preorder_eq (node : Node) : node.preorder = node :: node.children.flatMap preorder := by
  rw [preorder]
  simp

/-- The nodes that are visited while a stack of nodes is worked off, its top in front: the top node
is visited, and its parts take its place. -/
def visit : List Node → List Node
  | [] => []
  | node :: stack => node :: visit (node.children ++ stack)
termination_by stack => (stack.flatMap preorder).length
decreasing_by
  rw [List.flatMap_append, List.flatMap_cons, preorder_eq]
  simp

/-- The node and everything below it, each node before its parts. -/
def walk (node : Node) : List Node := visit [node]

/-- A stack is worked off node by node. -/
theorem visit_eq (stack : List Node) : visit stack = stack.flatMap preorder := by
  fun_induction visit stack with
  | case1 => rfl
  | case2 node stack ih =>
    rw [ih, List.flatMap_append, List.flatMap_cons, preorder_eq, List.cons_append]

theorem walk_eq_preorder : walk = preorder := by
  funext node
  rw [walk, visit_eq, List.flatMap_singleton]

theorem walk_eq (node : Node) : node.walk = node :: node.children.flatMap walk := by
  rw [walk_eq_preorder]
  exact preorder_eq node

end Node

end DecisionLang
