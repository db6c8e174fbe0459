import DecisionLang.Diagnostic
import DecisionLang.Tree.NamePath
import DecisionLang.Typing.Ty

/-!
# Scopes

A scope holds variables in the order they were declared. Scopes are nested: a name means the
innermost variable that has it, and a scope has every name at most once.
-/

namespace DecisionLang

/-- Where a variable comes from. -/
inductive Origin where
  | code | parameters | results
  /-- A member of a record type. -/
  | record
  | unknown
  deriving DecidableEq

structure Variable where
  name : String
  type : Ty
  origin : Origin
  reference : Reference
  deriving DecidableEq

/-- A path that starts at a variable, with the type at its end. -/
structure ResolvedVariable where
  path : NamePath
  origin : Origin
  type : Ty
  deriving DecidableEq

/-- The variables of one scope, oldest first. -/
abbrev Scope := List Variable

/-- Nested scopes, of which there is always one. -/
structure Scopes where
  innermost : Scope := []
  /-- The scopes around it, nearest first. -/
  outer : List Scope := []
  deriving DecidableEq

namespace Scope

def find? (scope : Scope) (name : String) : Option Variable :=
  List.find? (fun variable_ => variable_.name == name) scope

end Scope

namespace Scopes

def depth (scopes : Scopes) : Nat := scopes.outer.length + 1

def find? (scopes : Scopes) (name : String) : Option Variable :=
  (scopes.innermost :: scopes.outer).findSome? fun scope => scope.find? name

def contains (scopes : Scopes) (name : String) : Bool := (scopes.find? name).isSome

/-- The variables of all scopes, outermost scope first. -/
def visible (scopes : Scopes) : List Variable :=
  scopes.outer.reverse.flatten ++ scopes.innermost

def enter (scopes : Scopes) : Scopes := ⟨[], scopes.innermost :: scopes.outer⟩

/-- Leaves the innermost scope; the last one stays. -/
def leave (scopes : Scopes) : Scopes :=
  match scopes.outer with
  | [] => scopes
  | scope :: outer => ⟨scope, outer⟩

/-- Adds a variable to the innermost scope, unless that has the name. -/
def declare? (scopes : Scopes) (new : Variable) : Option Scopes :=
  if (scopes.innermost.find? new.name).isSome then none
  else some { scopes with innermost := scopes.innermost ++ [new] }

@[simp] theorem leave_enter (scopes : Scopes) : scopes.enter.leave = scopes := rfl

@[simp] theorem depth_enter (scopes : Scopes) : scopes.enter.depth = scopes.depth + 1 := rfl

end Scopes

end DecisionLang
