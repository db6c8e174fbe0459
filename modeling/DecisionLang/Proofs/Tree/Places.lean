import DecisionLang.Tree.Walk

/-!
# Places in a tree

The place of a node is the list of the numbers of the parts that lead to it from the top. Places in
lexicographic order are the nodes in the order in which a tree is read: each before its parts, and
parts from first to last. A walk visits what stands at every place of a tree, once and in that order.
Main statement: `Node.exists_places`.
-/

namespace DecisionLang.Node

/-- The node at a place below another, if there is such a place. -/
def at? (node : Node) : List Nat → Option Node
  | [] => some node
  | index :: place => node.children[index]?.bind (·.at? place)

/-- The node at a place below one of several, the number of which is said first. -/
def among? (nodes : List Node) : List Nat → Option Node
  | [] => none
  | index :: place => nodes[index]?.bind (·.at? place)

/-- Nodes are visited at these places one after another, which are all places where a node is. -/
structure VisitsAt (find : List Nat → Option Node) (visited : List Node)
    (places : List (List Nat)) : Prop where
  found : visited.map some = places.map find
  ordered : places.Pairwise (· < ·)
  complete : ∀ place, (find place).isSome = true → place ∈ places

variable {find : List Nat → Option Node} {visited others nodes : List Node} {node : Node}
  {places rest : List (List Nat)} {place : List Nat}

theorem VisitsAt.isSome (h : VisitsAt find visited places) (hplace : place ∈ places) :
    (find place).isSome = true := by
  have hmem : find place ∈ visited.map some := h.found ▸ List.mem_map_of_mem hplace
  obtain ⟨item, _, hitem⟩ := List.mem_map.1 hmem
  rw [← hitem]
  rfl

/-- A place among the nodes behind the first one, seen from in front of it. -/
def later (place : List Nat) : List Nat := place.modifyHead (· + 1)

theorem among?_later (node : Node) (nodes : List Node) (place : List Nat) :
    among? (node :: nodes) (later place) = among? nodes place := by
  cases place <;> rfl

theorem later_lt_later {first second : List Nat} (h : first < second) :
    later first < later second := by
  cases first with
  | nil =>
    cases second with
    | nil => exact h
    | cons index place => exact List.nil_lt_cons _ _
  | cons first place =>
    cases second with
    | nil => cases h
    | cons second place' =>
      rw [List.cons_lt_cons_iff] at h
      exact List.cons_lt_cons_iff.2 (h.imp Nat.succ_lt_succ (And.imp_left (congrArg _)))

theorem lt_later {place later' : List Nat} (hne : later' ≠ []) : 0 :: place < later later' := by
  cases later' with
  | nil => exact absurd rfl hne
  | cons index place' => exact List.cons_lt_cons_iff.2 (.inl (Nat.succ_pos index))

theorem VisitsAt.cons (hnode : VisitsAt node.at? visited places)
    (hothers : VisitsAt (among? nodes) others rest) :
    VisitsAt (among? (node :: nodes)) (visited ++ others)
      (places.map (0 :: ·) ++ rest.map later) where
  found := by
    rw [List.map_append, List.map_append, hnode.found, hothers.found, List.map_map, List.map_map]
    exact congrArg _ (List.map_congr_left fun place _ => (among?_later node nodes place).symm)
  ordered := by
    refine List.pairwise_append.2 ⟨?_, ?_, ?_⟩
    · exact hnode.ordered.map _ fun _ _ h => List.cons_lt_cons_iff.2 (.inr ⟨rfl, h⟩)
    · exact hothers.ordered.map _ fun _ _ => later_lt_later
    · intro first hfirst second hsecond
      obtain ⟨place, _, rfl⟩ := List.mem_map.1 hfirst
      obtain ⟨place', hplace', rfl⟩ := List.mem_map.1 hsecond
      refine lt_later ?_
      rintro rfl
      exact Bool.noConfusion (hothers.isSome hplace')
  complete place hplace := by
    rw [List.mem_append]
    match place with
    | [] => cases hplace
    | 0 :: place => exact .inl (List.mem_map_of_mem (hnode.complete place hplace))
    | (index + 1) :: place =>
      exact .inr (List.mem_map.2 ⟨index :: place, hothers.complete _ hplace, rfl⟩)

theorem exists_places_among (h : ∀ node ∈ nodes, ∃ places, VisitsAt node.at? node.walk places) :
    ∃ places, VisitsAt (among? nodes) (nodes.flatMap walk) places := by
  induction nodes with
  | nil => exact ⟨[], rfl, .nil, fun place hplace => by cases place <;> cases hplace⟩
  | cons node nodes ih =>
    obtain ⟨⟨places, hnode⟩, hothers⟩ := List.forall_mem_cons.1 h
    obtain ⟨rest, hrest⟩ := ih hothers
    exact ⟨_, hnode.cons hrest⟩

theorem VisitsAt.below (h : VisitsAt (among? node.children) visited places) :
    VisitsAt node.at? (node :: visited) ([] :: places) := by
  have hne {place : List Nat} (hplace : place ∈ places) : ∃ index inner, place = index :: inner := by
    cases place with
    | nil => exact Bool.noConfusion (h.isSome hplace)
    | cons index inner => exact ⟨index, inner, rfl⟩
  refine ⟨?_, List.pairwise_cons.2 ⟨fun place hplace => ?_, h.ordered⟩, fun place hplace => ?_⟩
  · rw [List.map_cons, List.map_cons, h.found]
    refine congrArg _ (List.map_congr_left fun place hplace => ?_)
    obtain ⟨index, inner, rfl⟩ := hne hplace
    rfl
  · obtain ⟨index, inner, rfl⟩ := hne hplace
    exact List.nil_lt_cons index inner
  · cases place with
    | nil => exact List.mem_cons_self
    | cons index inner => exact List.mem_cons_of_mem _ (h.complete _ hplace)

/-- A walk visits every place of a tree, once and in the order in which the tree is read. -/
theorem exists_places (node : Node) : ∃ places, VisitsAt node.at? node.walk places := by
  induction hsize : sizeOf node using Nat.strongRecOn generalizing node with
  | ind size ih =>
    subst hsize
    obtain ⟨places, hplaces⟩ := exists_places_among fun part hpart =>
      ih (sizeOf part) (sizeOf_lt_of_mem_children hpart) part rfl
    exact ⟨[] :: places, by rw [walk_eq]; exact hplaces.below⟩

end DecisionLang.Node
