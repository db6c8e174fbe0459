import DecisionLang.Dependency.Reference
import DecisionLang.Visiting

/-!
# The dependency graph

The graph keeps the references between declarations that do not close a cycle. It is found by a
search in depth: a reference back to a declaration on the way from the start of the search is a
cycle, which is recorded and not followed; all others become edges. Every declaration is expanded
once, where declarations of the same name and sort count as one: only the first of them to be
reached has edges.
-/

namespace DecisionLang

/-- A declaration as the graph sees it. -/
structure GraphNode where
  name : String
  /-- The word that introduces the declaration. -/
  sort : Keyword
  deriving DecidableEq

structure DependencyGraph where
  nodes : List GraphNode
  /-- Pairs of indices, the second one a dependency of the first, in the order they were found. -/
  edges : List (Nat × Nat)
  /-- Names on cycles, each once. -/
  circular : List String
  /-- The names along each cycle that was found. -/
  cycles : List (List String)
  deriving DecidableEq

/-- A search in progress. -/
structure DependencySearch where
  edges : List (Nat × Nat) := []
  expanded : List GraphNode := []
  circular : List String := []
  cycles : List (List String) := []

namespace Document

def graphNodes (document : Document) : List GraphNode :=
  document.declarations.map fun declaration => ⟨declaration.name, declaration.keyword⟩

end Document

namespace DependencySearch

/-- Adds what is not there yet. -/
def include? {α : Type} [BEq α] (items : List α) (item : α) : List α :=
  if items.contains item then items else items ++ [item]

def recordCycle (search : DependencySearch) (names : List String) : DependencySearch :=
  { search with
    circular := names.foldl include? search.circular
    cycles := search.cycles ++ [names] }

def recordEdge (search : DependencySearch) (edge : Nat × Nat) : DependencySearch :=
  { search with edges := include? search.edges edge }

def isExpanded (search : DependencySearch) (document : Document) (index : Nat) : Bool :=
  document.graphNodes[index]?.any search.expanded.contains

def finish (search : DependencySearch) (document : Document) (index : Nat) : DependencySearch :=
  { search with expanded := search.expanded ++ document.graphNodes[index]?.toList }

/-- Names along the way from a declaration on it to its end. The way has its end first. -/
def cycleNames (document : Document) (way : List Nat) (start : Nat) : List String :=
  ((way.takeWhile (· ≠ start) ++ [start]).reverse.filterMap (document.graphNodes[·]?)).map
    GraphNode.name

/-- Follows one reference from the end of the way, given how declarations are expanded. -/
def follow (document : Document) (way : List Nat) (index : Nat)
    (expand : Nat → DependencySearch → DependencySearch) (search : DependencySearch)
    (other : Nat) : DependencySearch :=
  if way.contains other then search.recordCycle (cycleNames document way other)
  else
    let search := search.recordEdge (index, other)
    if search.isExpanded document other then search else expand other search

/-- Follows the references of a declaration that is not on the way yet. -/
def expand (document : Document) (way : List Nat) (index : Nat) (search : DependencySearch) :
    DependencySearch :=
  if _ : index ∈ List.range document.declarations.length ∧ index ∉ way then
    let next (other : Nat) (search : DependencySearch) : DependencySearch :=
      expand document (index :: way) other search
    ((document.references index).foldl (follow document (index :: way) index next) search).finish
      document index
  else search
termination_by unmet (List.range document.declarations.length) way
decreasing_by exact unmet_cons_lt ‹_ ∧ _›.1 ‹_ ∧ _›.2

/-- Starts at a declaration, unless that is expanded. -/
def start (document : Document) (search : DependencySearch) (index : Nat) : DependencySearch :=
  if search.isExpanded document index then search else expand document [] index search

end DependencySearch

namespace DependencyGraph

/-- The graph of a document. -/
def ofDocument (document : Document) : DependencyGraph :=
  let indices := List.range document.declarations.length
  let search := indices.foldl (DependencySearch.start document) {}
  ⟨document.graphNodes, search.edges, search.circular, search.cycles⟩

def size (graph : DependencyGraph) : Nat := graph.nodes.length

def indices (graph : DependencyGraph) : List Nat := List.range graph.size

/-- Direct dependencies of a declaration, in the order they were found. -/
def dependencies (graph : DependencyGraph) (index : Nat) : List Nat :=
  (graph.edges.filter fun edge => edge.1 == index).map Prod.snd

def isCircular (graph : DependencyGraph) : Bool := !graph.circular.isEmpty

def indexOf? (graph : DependencyGraph) (name : String) : Option Nat :=
  graph.nodes.findIdx? fun node => node.name == name

end DependencyGraph

end DecisionLang
