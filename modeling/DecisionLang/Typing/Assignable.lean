import DecisionLang.Typing.Members

/-!
# Assignability

A value of an object type can be stored where another object type is wanted if it has every wanted
member with an assignable type; all other types are assignable only to themselves. Object types
can be recursive: a pair of types that is met again while it is being compared holds unless
something else fails.
-/

namespace DecisionLang.TypeEnv

/-- One instance for all statements about pairs of types. -/
instance : LawfulBEq (Ty × Ty) := inferInstance

/-- Pairs of object types that have members. -/
def objectPairs (env : TypeEnv) : List (Ty × Ty) :=
  env.objectTypes.flatMap fun target => env.objectTypes.map fun value => (target, value)

/-- Whether a value can be stored, given the pairs that are being compared. Where one of the types
has no members of its own, only the wanted members count. -/
def assignableAmong (env : TypeEnv) (comparing : List (Ty × Ty)) (target value : Ty) : Bool :=
  if target = value then true
  else if !target.isObject || !value.isObject then false
  else if (target, value) ∈ comparing then true
  else if _ : (target, value) ∈ env.objectPairs ∧ (target, value) ∉ comparing then
    (env.members target).all fun wanted =>
      (env.members value).any fun offered =>
        offered.1 == wanted.1 &&
          env.assignableAmong ((target, value) :: comparing) wanted.2 offered.2
  else (env.members target).isEmpty
termination_by unmet env.objectPairs comparing
decreasing_by exact unmet_cons_lt ‹_ ∧ _›.1 ‹_ ∧ _›.2

/-- Whether a value of one type can be stored in a variable of another. -/
def assignable (env : TypeEnv) (target value : Ty) : Bool := env.assignableAmong [] target value

theorem assignable_refl (env : TypeEnv) (type : Ty) : env.assignable type type = true := by
  rw [assignable, assignableAmong, if_pos rfl]

end DecisionLang.TypeEnv
