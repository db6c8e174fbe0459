import DecisionLang.Tree.Walk

/-!
# References between declarations

A declaration refers to every name that occurs in it where a root declaration can stand: in written
types, in calls and table functions, as the root of a path, as the function under test. Names are
collected from the syntax alone, so references are known before anything is checked. A name means
the first declaration that has it.
-/

namespace DecisionLang

namespace WrittenType

/-- The name at the root of a type that is written as a path. -/
def rootName? : WrittenType → Option String
  | named path => some path.root
  | _ => none

end WrittenType

namespace Expr

/-- The name that an expression itself refers to, its parts left aside. -/
def referredName? : Expr → Option String
  | name _ word => some word
  | path _ names => some names.root
  | declare _ type _ _ => type.rootName?
  | indexed _ table _ => some table
  | make _ _ type _ => some type.root
  | lookUp _ _ table .. => some table
  | call _ function _ => some function
  | _ => none

end Expr

namespace Node

/-- The name that a node itself refers to. -/
def referredName? : Node → Option String
  | definition item => item.type.rootName?
  | column item => item.type.rootName?
  | testedFunction (.named name _) => some name
  | expression item => item.referredName?
  | _ => none

end Node

namespace Declaration

/-- The names that a declaration refers to, whether declared or not, each once and in the order of
the source. -/
def referredNames (declaration : Declaration) : List String :=
  ((Node.ofDeclaration declaration).walk.filterMap Node.referredName?).eraseDups

end Declaration

namespace Document

/-- Index of the first declaration with a name. -/
def indexOf? (document : Document) (name : String) : Option Nat :=
  document.declarations.findIdx? fun declaration => declaration.name == name

/-- Indices of the other declarations that a declaration refers to. -/
def references (document : Document) (index : Nat) : List Nat :=
  (document.declarations[index]?.elim [] fun declaration =>
    declaration.referredNames.filterMap document.indexOf?).filter (· ≠ index)

theorem indexOf?_lt {document : Document} {name : String} {index : Nat}
    (h : document.indexOf? name = some index) : index < document.declarations.length := by
  obtain ⟨hlt, _⟩ := List.findIdx?_eq_some_iff_getElem.1 h
  exact hlt

theorem lt_of_mem_references {document : Document} {index other : Nat}
    (h : other ∈ document.references index) : other < document.declarations.length := by
  unfold references at h
  have h := (List.mem_filter.1 h).1
  cases hd : document.declarations[index]? with
  | none => simp [hd] at h
  | some declaration =>
    simp only [hd, Option.elim_some, List.mem_filterMap] at h
    obtain ⟨_, _, h⟩ := h
    exact indexOf?_lt h

end Document

end DecisionLang
