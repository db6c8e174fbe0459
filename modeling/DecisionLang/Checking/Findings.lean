import DecisionLang.Checking.Scope

/-!
# Findings

What checking finds out about the parts of a document, by the numbers of expressions and
definitions, for stages that come after it.
-/

namespace DecisionLang

/-- Values by number, in the order the numbers were first recorded. -/
abbrev Recorded (α : Type) := List (Nat × α)

namespace Recorded

variable {α : Type}

/-- Records a value; a number that has one keeps its place. -/
def record (id : Nat) (value : α) : Recorded α → Recorded α
  | [] => [(id, value)]
  | item :: items =>
    if item.1 = id then (id, value) :: items else item :: record id value items

def find? (recorded : Recorded α) (id : Nat) : Option α :=
  (List.find? (fun item => item.1 == id) recorded).map Prod.snd

theorem find?_record (recorded : Recorded α) (id other : Nat) (value : α) :
    (record id value recorded).find? other =
      if id = other then some value else recorded.find? other := by
  induction recorded with
  | nil => by_cases h : id = other <;> simp [record, find?, h]
  | cons item items ih =>
    unfold record
    by_cases hi : item.1 = id
    · by_cases h : id = other
      · simp [hi, h, find?]
      · simp [hi, find?, h]
    · rw [if_neg hi]
      by_cases ho : item.1 = other
      · have : id ≠ other := fun h => hi (ho.trans h.symm)
        simp [find?, ho, this]
      · simpa [find?, List.find?_cons, ho] using ih

end Recorded

structure Findings where
  /-- Types of expressions. -/
  types : Recorded Ty := []
  /-- Variables that names and paths stand for. -/
  resolved : Recorded ResolvedVariable := []
  /-- Types of declared variables. -/
  definitions : Recorded Ty := []
  deriving DecidableEq

end DecisionLang
