import DecisionLang.Checking.Call
import DecisionLang.Tree.Walk

/-!
# Checking expressions

`Check.derive` applies the rule for the kind of an expression, given how its parts are checked;
`Check.expression` ties the knot and records the type, if there is one.
-/

namespace DecisionLang.Check

/-- How the expressions inside an expression are checked. -/
abbrev Inside (whole : Expr) :=
  (inner : Expr) → sizeOf inner < sizeOf whole → Check (Option Ty)

variable {whole : Expr} (inside : Inside whole)

def childPart (item : Expr) (h : item ∈ whole.children) : Part :=
  ⟨item, inside item (Expr.sizeOf_lt_of_mem_children h)⟩

def childPart? (item? : Option Expr) (h : ∀ item ∈ item?, item ∈ whole.children) : Option Part :=
  match item?, h with
  | some item, h => some (childPart inside item (h item rfl))
  | none, _ => none

def childParts (items : List Expr) (h : items ⊆ whole.children) : List Part :=
  items.attach.map fun ⟨item, hitem⟩ => childPart inside item (h hitem)

/-- A branch of a switch with its value. Anything else among the branches is left out. -/
def casePart? (branch : Expr) (h : branch ∈ whole.children) : Option CasePart :=
  match branch, h with
  | .case mark value body, h =>
    some ⟨childPart? (fun inner hinner => inside inner
        (Nat.lt_trans hinner (Expr.sizeOf_lt_of_mem_children h))) value
        (fun _ hvalue => List.mem_append_left body (Option.mem_toList.2 hvalue)),
      childPart inside (.case mark value body) h⟩
  | _, _ => none

def caseParts (cases : List Expr) (h : cases ⊆ whole.children) : List CasePart :=
  cases.attach.filterMap fun ⟨branch, hbranch⟩ => casePart? inside branch (h hbranch)

/-- The type of an expression by the rule for its kind. Branches have no value. -/
def derive (env : TypeEnv) (whole : Expr) (inside : Inside whole) : Check (Option Ty) :=
  match whole, inside with
  | .literal _ value, _ => return some (.primitive value.primitive)
  | .name mark word, _ => pathType? env mark (NamePath.ofName word)
  | .path mark names, _ => pathType? env mark names
  | .binary mark left operator right, inside =>
    binary env mark (childPart inside left (.head _)) operator
      (childPart inside right (.tail _ (.head _)))
  | .assign mark target value, inside =>
    assignment env mark (childPart inside target (.head _))
      (childPart inside value (.tail _ (.head _)))
  | .declare mark type name default, inside => do
    declaration env ⟨mark.id, name, type, mark.reference⟩ .code
      (childPart? inside default fun _ => Option.mem_toList.2)
    return some .void
  | .group _ inner, inside => (childPart inside inner (.head _)).check
  | .indexed mark table index, inside =>
    indexed env mark table (childPart inside index (.head _))
  | .make mark making type typeReference, _ => make env mark making type typeReference
  | .extract mark object, inside => extract env mark (childPart inside object (.head _))
  | .lookUp _ _ table tableReference discriminator value discriminatorColumn searchColumn
      resultColumn, inside =>
    lookUp env ⟨table, tableReference,
      childPart? inside discriminator fun _ h =>
        List.mem_append_left [value] (Option.mem_toList.2 h),
      childPart inside value (List.mem_append_right discriminator.toList (.head _)),
      discriminatorColumn, searchColumn, resultColumn⟩
  | .call mark function arguments, inside =>
    call env mark function (childParts inside arguments fun _ h => h)
  | .ifThen _ condition? lines alternatives, inside => do
    condition .ifBranch (childPart inside condition? (.head _))
    body (childParts inside lines fun _ h => .tail _ (List.mem_append_left alternatives h))
    Part.checkAll (childParts inside alternatives fun _ h =>
      .tail _ (List.mem_append_right lines h))
    return some .void
  | .elseIf _ condition? lines, inside => do
    condition .elseIfBranch (childPart inside condition? (.head _))
    body (childParts inside lines fun _ h => .tail _ h)
    return some .void
  | .otherwise _ lines, inside => do
    body (childParts inside lines fun _ h => h)
    return some .void
  | .switch _ subject cases, inside =>
    switch (childPart inside subject (.head _)) (caseParts inside cases fun _ h => .tail _ h)
  | .case _ value lines, inside => do
    body (childParts inside lines fun _ h => List.mem_append_right value.toList h)
    return some .void
  | .spread mark, _ => do
    report .misplacedSpread mark.reference
    return none
  | .spreadAssign mark invoked, inside =>
    spreadAssignment env mark (childPart inside invoked (.head _))

/-- The type of an expression, recorded under its number; without one, a fault has been logged. -/
def expression (env : TypeEnv) (whole : Expr) : Check (Option Ty) := do
  let type? ← derive env whole fun inner _ => expression env inner
  if let some type := type? then recordType whole.id type
  return type?
termination_by sizeOf whole

/-- An expression that stands on its own, as a part. -/
def partOf (env : TypeEnv) (item : Expr) : Part := ⟨item, expression env item⟩

end DecisionLang.Check
