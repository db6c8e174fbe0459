import DecisionLang.Proofs.Typing.Settling
import Mathlib.Order.Bounds.Basic

/-!
# Assignability as the greatest conformance

A relation of types conforms if it only relates types that are the same, or object types of which
the first one's members are all offered by the second one, under the same names and with related
types. Object types can be recursive, so this does not say by itself which relation is meant:
assignability is the greatest of them, `assignable_isGreatest`.

Comparing two types assumes the pairs that are already being compared. `Upheld` says what this
decides: a pair is upheld if it belongs to a relation that conforms as far as its pairs do not rest
on the pairs assumed, and an assumption about the pair itself can be dropped (`upheld_of_cons`).
-/

namespace DecisionLang.TypeEnv

variable {env : TypeEnv} {related : Ty → Ty → Prop} {comparing : List (Ty × Ty)}
  {target value middle : Ty}

/-- What a relation requires of a pair of types: the pair may be related if types of members are. -/
def Conforms (env : TypeEnv) (related : Ty → Ty → Prop) (target value : Ty) : Prop :=
  target = value ∨ target.isObject = true ∧ value.isObject = true ∧
    ∀ wanted ∈ env.members target, ∃ offered ∈ env.members value,
      offered.1 = wanted.1 ∧ related wanted.2 offered.2

theorem Conforms.imp {wider : Ty → Ty → Prop} (h : env.Conforms related target value)
    (himp : ∀ wanted offered, related wanted offered → wider wanted offered) :
    env.Conforms wider target value := by
  rcases h with heq | ⟨htarget, hvalue, hmembers⟩
  · exact .inl heq
  · refine .inr ⟨htarget, hvalue, fun wanted hwanted => ?_⟩
    obtain ⟨offered, hoffered, hname, hrelated⟩ := hmembers wanted hwanted
    exact ⟨offered, hoffered, hname, himp _ _ hrelated⟩

/-- A relation that only relates what it may relate. -/
def IsConformance (env : TypeEnv) (related : Ty → Ty → Prop) : Prop :=
  ∀ target value, related target value → env.Conforms related target value

/-- A pair belongs to a relation that conforms, where members may also be pairs that are being
compared. -/
def Upheld (env : TypeEnv) (comparing : List (Ty × Ty)) (target value : Ty) : Prop :=
  ∃ related : Ty → Ty → Prop, related target value ∧ ∀ target value, related target value →
    env.Conforms (fun wanted offered => related wanted offered ∨ (wanted, offered) ∈ comparing)
      target value

theorem Upheld.conforms (h : env.Upheld comparing target value) :
    env.Conforms (fun wanted offered =>
      env.Upheld comparing wanted offered ∨ (wanted, offered) ∈ comparing) target value := by
  obtain ⟨related, hrelated, hconforms⟩ := h
  exact (hconforms target value hrelated).imp fun wanted offered =>
    Or.imp_left fun h => ⟨related, h, hconforms⟩

/-- A pair that is upheld if it is assumed is upheld without the assumption. -/
theorem upheld_of_cons (h : env.Conforms (fun wanted offered =>
      env.Upheld ((target, value) :: comparing) wanted offered ∨
        (wanted, offered) ∈ (target, value) :: comparing) target value) :
    env.Upheld comparing target value := by
  let related (wanted offered : Ty) : Prop :=
    env.Upheld ((target, value) :: comparing) wanted offered ∨ (wanted, offered) = (target, value)
  have hdrop (wanted offered : Ty)
      (h : env.Upheld ((target, value) :: comparing) wanted offered ∨
        (wanted, offered) ∈ (target, value) :: comparing) :
      related wanted offered ∨ (wanted, offered) ∈ comparing := by
    rcases h with h | h
    · exact .inl (.inl h)
    · exact (List.mem_cons.1 h).imp_left .inr
  refine ⟨related, .inr rfl, ?_⟩
  rintro wanted offered (hupheld | hsame)
  · exact hupheld.conforms.imp hdrop
  · cases hsame
    exact h.imp hdrop

/-! ### Comparing -/

theorem upheld_of_assignableAmong (h : env.assignableAmong comparing target value = true) :
    env.Upheld comparing target value ∨ (target, value) ∈ comparing := by
  induction hunmet : unmet env.objectPairs comparing using Nat.strongRecOn
    generalizing comparing target value with
  | ind count ih =>
    subst hunmet
    by_cases hsame : target = value
    · exact .inl ⟨(· = ·), hsame, fun _ _ h => .inl h⟩
    by_cases hcomparing : (target, value) ∈ comparing
    · exact .inr hcomparing
    by_cases hobjects : (!target.isObject || !value.isObject) = true
    · rw [assignableAmong, if_neg hsame, if_pos hobjects] at h
      cases h
    rw [assignableAmong_eq_all hsame hobjects hcomparing] at h
    simp only [Bool.or_eq_true, Bool.not_eq_true', not_or, Bool.not_eq_false] at hobjects
    refine .inl (upheld_of_cons (.inr ⟨hobjects.1, hobjects.2, fun wanted hwanted => ?_⟩))
    obtain ⟨offered, hoffered, hmatch⟩ := List.any_eq_true.1 (List.all_eq_true.1 h wanted hwanted)
    obtain ⟨hname, hassignable⟩ := (Bool.and_eq_true _ _).mp hmatch
    refine ⟨offered, hoffered, beq_iff_eq.1 hname, ?_⟩
    have hpair := mem_objectPairs_of_mem_members hwanted hoffered
    exact ih _ (unmet_cons_lt hpair hcomparing) hassignable rfl

theorem assignableAmong_of_isConformance (hrelated : env.IsConformance related)
    (h : related target value) (comparing : List (Ty × Ty)) :
    env.assignableAmong comparing target value = true := by
  induction hunmet : unmet env.objectPairs comparing using Nat.strongRecOn
    generalizing comparing target value with
  | ind count ih =>
    subst hunmet
    by_cases hsame : target = value
    · rw [assignableAmong, if_pos hsame]
    obtain ⟨htarget, hvalue, hmembers⟩ := (hrelated target value h).resolve_left hsame
    have hobjects : ¬(!target.isObject || !value.isObject) = true := by simp [htarget, hvalue]
    by_cases hcomparing : (target, value) ∈ comparing
    · rw [assignableAmong, if_neg hsame, if_neg hobjects, if_pos hcomparing]
    rw [assignableAmong_eq_all hsame hobjects hcomparing, List.all_eq_true]
    intro wanted hwanted
    obtain ⟨offered, hoffered, hname, hpart⟩ := hmembers wanted hwanted
    have hpair := mem_objectPairs_of_mem_members hwanted hoffered
    have hassignable := ih _ (unmet_cons_lt hpair hcomparing) hpart _ rfl
    refine List.any_eq_true.2 ⟨offered, hoffered, ?_⟩
    exact (Bool.and_eq_true _ _).mpr ⟨beq_iff_eq.2 hname, hassignable⟩

theorem isConformance_assignable :
    env.IsConformance fun target value => env.assignable target value = true := by
  intro target value h
  have hupheld {wanted offered : Ty} (h : env.Upheld [] wanted offered) :
      env.assignable wanted offered = true := by
    have hconformance : env.IsConformance (env.Upheld []) := fun _ _ h =>
      h.conforms.imp fun _ _ h => h.resolve_right List.not_mem_nil
    exact assignableAmong_of_isConformance hconformance h []
  have htop := (upheld_of_assignableAmong h).resolve_right List.not_mem_nil
  exact htop.conforms.imp fun _ _ h => hupheld (h.resolve_right List.not_mem_nil)

theorem assignable_of_isConformance (hrelated : env.IsConformance related)
    (h : related target value) : env.assignable target value = true :=
  assignableAmong_of_isConformance hrelated h []

/-- What can be stored where a storable value is wanted can be stored itself. -/
theorem assignable_trans (h : env.assignable target middle = true)
    (h' : env.assignable middle value = true) : env.assignable target value = true := by
  let related (target value : Ty) : Prop :=
    ∃ middle, env.assignable target middle = true ∧ env.assignable middle value = true
  have htop : related target value := ⟨middle, h, h'⟩
  refine assignable_of_isConformance ?_ htop
  rintro target value ⟨middle, hfirst, hsecond⟩
  rcases isConformance_assignable _ _ hfirst with rfl | ⟨htarget, _, hwanted⟩
  · exact (isConformance_assignable _ _ hsecond).imp fun _ _ h => ⟨_, env.assignable_refl _, h⟩
  rcases isConformance_assignable _ _ hsecond with rfl | ⟨_, hvalue, hoffered⟩
  · exact (isConformance_assignable _ _ hfirst).imp fun _ _ h => ⟨_, h, env.assignable_refl _⟩
  refine .inr ⟨htarget, hvalue, fun want hwant => ?_⟩
  obtain ⟨between, hbetween, hname, hassignable⟩ := hwanted want hwant
  obtain ⟨offer, hoffer, hname', hassignable'⟩ := hoffered between hbetween
  exact ⟨offer, hoffer, hname'.trans hname, between.2, hassignable, hassignable'⟩

/-! ### Where members are settled -/

/-- What is never settled in a row of columns keeps the row from being settled. -/
theorem columnTypesIn_eq_none {resolve : WrittenType → OptionT Option Ty} {columns : List Column}
    {column : Column} (hcolumn : column ∈ columns) (hnone : (resolve column.type).run = none) :
    columnTypesIn resolve columns = none := by
  induction columns with
  | nil => cases hcolumn
  | cons head rest ih =>
    rw [columnTypesIn]
    rcases List.mem_cons.1 hcolumn with rfl | hcolumn
    · rw [hnone]
      rfl
    · rw [ih hcolumn]
      cases (resolve head.type).run <;> rfl

/-- If the members of all types are settled, no chain of columns comes back. -/
theorem columnsEnd_of_members
    (hsettled : ∀ object, ∃ steps, env.membersWithin steps [] object ≠ none) : env.ColumnsEnd := by
  intro type hback
  obtain ⟨_, hnext, hrest⟩ := Relation.TransGen.head'_iff.1 hback
  obtain ⟨table, name, htable, column, hcolumn, rfl⟩ := hnext.exists_table
  have hcycle : Relation.TransGen env.Leads column.type column.type := .tail' hrest hnext
  obtain ⟨steps, hsome⟩ := hsettled (.generated name .row)
  refine hsome ?_
  cases steps with
  | zero => rfl
  | succ steps =>
    simp only [membersWithin, membersIn, htable, if_neg List.not_mem_nil]
    exact columnTypesIn_eq_none hcolumn (resolveWithin_eq_none_of_transGen hcycle hcycle steps)

/-- If the members of all types are settled, comparing types comes to an end after a number of
steps, and it decides the greatest conformance, which is reflexive and transitive. -/
theorem assignable_isGreatest
    (hsettled : ∀ object, ∃ steps, env.membersWithin steps [] object ≠ none) :
    (∀ steps, env.stepBound ≤ steps → ∀ target value,
      env.assignableWithin steps [] target value = some (env.assignable target value)) ∧
    IsGreatest {related | env.IsConformance related}
      (fun target value => env.assignable target value = true) ∧
    (∀ type, env.assignable type type = true) ∧
    ∀ target middle value, env.assignable target middle = true →
      env.assignable middle value = true → env.assignable target value = true := by
  refine ⟨fun steps hsteps target value => ?_, ⟨isConformance_assignable, ?_⟩,
    env.assignable_refl, fun _ _ _ => assignable_trans⟩
  · exact assignableWithin_eq (columnsEnd_of_members hsettled) hsteps target value
  · exact fun related hrelated target value h => assignable_of_isConformance hrelated h

/-- Two record types, each with a member of the other. -/
def mutualTypes : Progress :=
  ({} : Progress).readSource .standard 2 "test.lexy"
    ["type Cell", "  number Value", "  Chain Next", "type Chain", "  number Value", "  Cell Next"]

/-- The types can be stored in each other although neither comparison ends without the other. -/
theorem assignable_isGreatest_mutualTypes :
    ∃ env : TypeEnv, env.document = mutualTypes.document ∧
      (∀ object, ∃ steps, env.membersWithin steps [] object ≠ none) ∧
      env.assignableWithin env.stepBound [] (.record "Cell") (.record "Chain") = some true ∧
      IsGreatest {related | env.IsConformance related}
        (fun target value => env.assignable target value = true) := by
  let env : TypeEnv := ⟨mutualTypes.document, .standard⟩
  have hcolumns : env.columns = [] := by decide +kernel
  have hend : env.ColumnsEnd := by
    intro type hback
    obtain ⟨_, hnext, _⟩ := Relation.TransGen.head'_iff.1 hback
    obtain ⟨column, hcolumn, _⟩ := hnext.mem_columns
    rw [hcolumns] at hcolumn
    cases hcolumn
  have hsettled (object : Ty) : ∃ steps, env.membersWithin steps [] object ≠ none := by
    have hmembers : env.membersWithin env.memberSteps [] object = some (env.members object) :=
      membersWithin_eq hend (Nat.le_refl _) object
    exact ⟨env.memberSteps, hmembers ▸ Option.some_ne_none _⟩
  obtain ⟨hends, hgreatest, _⟩ := assignable_isGreatest hsettled
  have hassignable : env.assignable (.record "Cell") (.record "Chain") = true := by decide +kernel
  refine ⟨env, rfl, hsettled, ?_, hgreatest⟩
  rw [hends _ (Nat.le_refl _), hassignable]

end DecisionLang.TypeEnv
