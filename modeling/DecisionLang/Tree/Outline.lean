import DecisionLang.Tree.ExprText
import DecisionLang.Tree.Walk

/-!
# Outlines of documents

One line for each node, in the order of `Node.walk`, indented by its depth.
-/

namespace DecisionLang.Node

/-- Kind, name, text and number of parts of a node, as far as it has them. -/
def headline (node : Node) : String :=
  let name := node.name?.elim "" (" " ++ ·)
  let text := match node with
    | expression item => s!" \x60{item.text}\x60"
    | _ => ""
  let count := node.children.length
  s!"{node.kindText}{name}{text} ({count})"

/-- The lines of a node and of all below it. -/
def outline (depth : Nat) (node : Node) : List String :=
  (String.ofList (List.replicate (2 * depth) ' ') ++ node.headline) ::
    node.children.attach.flatMap fun ⟨part, _⟩ => outline (depth + 1) part
termination_by sizeOf node
decreasing_by exact sizeOf_lt_of_mem_children ‹_›

theorem outline_eq (depth : Nat) (node : Node) :
    node.outline depth =
      (String.ofList (List.replicate (2 * depth) ' ') ++ node.headline) ::
        node.children.flatMap (outline (depth + 1)) := by
  rw [outline]
  simp

/-- An outline has one line for each node. -/
theorem length_outline (depth : Nat) (node : Node) :
    (node.outline depth).length = node.walk.length := by
  rw [outline_eq, walk_eq]
  simp only [List.length_cons, List.length_flatMap]
  congr 2
  exact List.map_congr_left fun part _ => length_outline (depth + 1) part
termination_by sizeOf node
decreasing_by exact sizeOf_lt_of_mem_children ‹_›

end DecisionLang.Node
