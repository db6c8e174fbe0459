import DecisionLang.Dependency.Graph
import DecisionLang.Diagnostic.Fault
import DecisionLang.Diagnostic.Log

/-!
# Dependencies first

`DependencyGraph.flatten` lists declarations so that each one comes after its dependencies, which
are listed with it, and each once.
-/

namespace DecisionLang.DependencyGraph

/-- Appends a declaration after the dependencies it still lacks. The declarations on the way to it
are going to be appended after it. -/
def emit (graph : DependencyGraph) (way : List Nat) (index : Nat) (emitted : List Nat) :
    List Nat :=
  if _ : index ∈ graph.indices ∧ index ∉ way then
    let next (emitted : List Nat) (other : Nat) : List Nat :=
      if emitted.contains other then emitted else emit graph (index :: way) other emitted
    (graph.dependencies index).foldl next emitted ++ [index]
  else emitted
termination_by unmet graph.indices way
decreasing_by exact unmet_cons_lt ‹_ ∧ _›.1 ‹_ ∧ _›.2

/-- The given declarations with all their dependencies. -/
def flatten (graph : DependencyGraph) (roots : List Nat) : List Nat :=
  roots.foldl
    (fun emitted root => if emitted.contains root then emitted else graph.emit [] root emitted) []

/-- All declarations, dependencies first; none if there are cycles. -/
def sorted? (graph : DependencyGraph) : Option (List Nat) :=
  if graph.isCircular then none else some (graph.flatten graph.indices)

/-- The order to check declarations in: dependencies first, or, with cycles, as in the source. -/
def checkOrder (graph : DependencyGraph) : List Nat := graph.sorted?.getD graph.indices

/-- The first declaration with a name and all its dependencies, dependencies first. -/
def around? (graph : DependencyGraph) (name : String) : Option (List Nat) :=
  (graph.indexOf? name).map fun index => graph.flatten [index]

/-- Reports a cycle once for every name on one, under that name. -/
def reportCircular (graph : DependencyGraph) (document : Document) (log : Log) : Log :=
  (graph.circular.filterMap document.find?).foldl
    (fun log declaration =>
      log.reportFor (some declaration.name)
        ((Fault.circularReference graph.circular).located declaration.reference))
    log

end DecisionLang.DependencyGraph
