import DecisionLang.Proofs.Tree.Numbers

/-!
# Regular trees

The types of the tree allow more than what is ever read. A tree is regular if the branches of every
switch are cases, a discriminator stands where its column does, and the rows of a table come after
its header and are as long as that: what checking relies on. `Node.AllRegular` says so of everything
below a node.
-/

namespace DecisionLang

namespace Expr

def isCase : Expr → Bool
  | case .. => true
  | _ => false

def Regular : Expr → Prop
  | switch _ _ cases => ∀ branch ∈ cases, branch.isCase = true
  | lookUp _ _ _ _ discriminator _ discriminatorColumn _ _ =>
    discriminator.isSome = discriminatorColumn.isSome
  | _ => True

end Expr

def Node.Regular : Node → Prop
  | .expression item => item.Regular
  | .table decl => (decl.header = none → decl.rows = []) ∧
    ∀ row ∈ decl.rows, row.values.length = decl.columns.length
  | _ => True

namespace Node

/-- Everything below a node is regular. -/
def AllRegular (node : Node) : Prop := node.Everywhere Regular

end Node

end DecisionLang
