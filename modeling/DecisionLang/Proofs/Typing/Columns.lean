import DecisionLang.Proofs.Tree.Lookup
import DecisionLang.Typing.TypeEnv
import Mathlib.Data.List.Chain
import Mathlib.Data.List.Perm.Subperm
import Mathlib.Logic.Relation

/-!
# Chains of columns

A column whose written type names a column leads to the written type of that column. Whether this
comes to an end decides whether a written type can be resolved at all: if no chain comes back to a
type that it has passed, every written type is settled within `columnCount + 1` steps
(`resolveWithin_eq`), and otherwise the types on the chain never are
(`resolveWithin_eq_none_of_transGen`).
-/

namespace DecisionLang.TypeEnv

variable {env : TypeEnv} {type next : WrittenType} {steps : Nat}

/-- Resolving a written type takes resolving the type of a column. -/
def Leads (env : TypeEnv) (type next : WrittenType) : Prop := env.step type = .column next

instance (env : TypeEnv) (type next : WrittenType) : Decidable (env.Leads type next) :=
  match hstep : env.step type with
  | .column other =>
    if heq : other = next then .isTrue (by rw [Leads, hstep, heq])
    else .isFalse fun h => heq (by rw [Leads, hstep] at h; cases h; rfl)
  | .settled _ => .isFalse fun h => by rw [Leads, hstep] at h; cases h

/-- No chain of columns comes back to a type that it has passed. -/
def ColumnsEnd (env : TypeEnv) : Prop := ∀ type, ¬ Relation.TransGen env.Leads type type

theorem Leads.exists_table (h : env.Leads type next) :
    ∃ table name, env.document.table? name = some table ∧
      ∃ column ∈ table.columns, column.type = next := by
  unfold Leads step at h
  split at h
  all_goals try cases h
  next owner member =>
    unfold memberStep at h
    split at h
    · cases h
    · next name _ =>
      split at h
      · cases h
      next table htable =>
        split at h
        · cases h
        split at h
        · cases h
        cases hcolumn : table.column? member with
        | none => simp [hcolumn] at h
        | some column =>
          simp only [hcolumn, Option.elim_some, Resolution.column.injEq] at h
          exact ⟨table, name, htable, column, List.mem_of_find?_eq_some hcolumn, h⟩
    · cases h

theorem Leads.mem_columns (h : env.Leads type next) :
    ∃ column ∈ env.columns, column.type = next := by
  obtain ⟨table, name, htable, column, hcolumn, htype⟩ := h.exists_table
  have hmem := (Document.mem_declarations_of_table? htable).1
  exact ⟨column, List.mem_flatMap.2 ⟨_, hmem, hcolumn⟩, htype⟩

/-! ### Steps -/

theorem resolveWithin_of_leads (h : env.Leads type next) (steps : Nat) :
    env.resolveWithin (steps + 1) type =
      (env.resolveWithin steps next).map (·.filter Ty.isObject) := by
  rw [resolveWithin, h]

/-- More steps do not change what is settled. -/
theorem resolveWithin_mono {result : Option Ty} {more : Nat}
    (h : env.resolveWithin steps type = some result) (hle : steps ≤ more) :
    env.resolveWithin more type = some result := by
  induction steps generalizing type result more with
  | zero => cases h
  | succ steps ih =>
    have hpos : 0 < more := Nat.lt_of_lt_of_le steps.succ_pos hle
    obtain ⟨more, rfl⟩ := Nat.exists_eq_succ_of_ne_zero (Nat.ne_of_gt hpos)
    rw [resolveWithin] at h ⊢
    cases hstep : env.step type with
    | settled => rwa [hstep] at h
    | column next =>
      rw [hstep] at h
      obtain ⟨found, hfound, rfl⟩ := Option.map_eq_some_iff.1 h
      simp only [ih hfound (Nat.le_of_succ_le_succ hle), Option.map_some]

/-- What is not settled within some steps has led along as many columns. -/
theorem exists_isChain_of_resolveWithin (h : env.resolveWithin steps type = none) :
    ∃ passed : List WrittenType, passed.length = steps ∧ (type :: passed).IsChain env.Leads := by
  induction steps generalizing type with
  | zero => exact ⟨[], rfl, .singleton type⟩
  | succ steps ih =>
    rw [resolveWithin] at h
    cases hstep : env.step type with
    | settled =>
      rw [hstep] at h
      cases h
    | column next =>
      rw [hstep] at h
      obtain ⟨passed, hlength, hchain⟩ := ih (Option.map_eq_none_iff.1 h)
      exact ⟨next :: passed, congrArg (· + 1) hlength, .cons_cons hstep hchain⟩

/-- A chain that is longer than there are columns passes a type that is led back to. -/
theorem exists_back_of_isChain {passed : List WrittenType} (h : (type :: passed).IsChain env.Leads)
    (hlength : env.columnCount < passed.length) :
    ∃ back, Relation.TransGen env.Leads type back ∧ Relation.TransGen env.Leads back back := by
  by_contra hnone
  have hpairwise : (type :: passed).Pairwise (Relation.TransGen env.Leads) :=
    (h.imp fun _ _ => Relation.TransGen.single).pairwise
  obtain ⟨hhead, htail⟩ := List.pairwise_cons.1 hpairwise
  have hnodup : passed.Nodup := htail.imp_of_mem fun hmem _ hpassed => by
    rintro rfl
    exact hnone ⟨_, hhead _ hmem, hpassed⟩
  have hsubset : passed ⊆ env.columns.map Column.type := by
    intro next hnext
    obtain ⟨_, _, hleads⟩ := Relation.TransGen.tail'_iff.1 (hhead next hnext)
    exact List.mem_map.2 hleads.mem_columns
  have hle := (List.subperm_of_subset hnodup hsubset).length_le
  rw [List.length_map] at hle
  exact Nat.not_lt_of_le hle hlength

theorem ColumnsEnd.length_le (hend : env.ColumnsEnd) {passed : List WrittenType}
    (h : (type :: passed).IsChain env.Leads) : passed.length ≤ env.columnCount := by
  by_contra hlength
  obtain ⟨back, _, hback⟩ := exists_back_of_isChain h (Nat.lt_of_not_le hlength)
  exact hend back hback

theorem exists_resolveWithin (hend : env.ColumnsEnd) (type : WrittenType) :
    ∃ result, env.resolveWithin (env.columnCount + 1) type = some result := by
  refine Option.ne_none_iff_exists'.1 fun hnone => ?_
  obtain ⟨passed, hlength, hchain⟩ := exists_isChain_of_resolveWithin hnone
  have hle := hend.length_le hchain
  omega

/-- If no chain comes back, all written types are settled. -/
theorem resolveWithin_eq (hend : env.ColumnsEnd) (hsteps : env.columnCount < steps)
    (type : WrittenType) : env.resolveWithin steps type = some (env.resolve? type) := by
  obtain ⟨result, hresult⟩ := exists_resolveWithin hend type
  rw [resolve?, hresult]
  exact resolveWithin_mono hresult hsteps

/-- A type that leads to one that is led back to is never settled. -/
theorem resolveWithin_eq_none_of_transGen {back : WrittenType}
    (h : Relation.TransGen env.Leads type back) (hback : Relation.TransGen env.Leads back back)
    (steps : Nat) : env.resolveWithin steps type = none := by
  induction steps generalizing type with
  | zero => rfl
  | succ steps ih =>
    obtain ⟨next, hnext, hrest⟩ := Relation.TransGen.head'_iff.1 h
    rw [resolveWithin_of_leads hnext, ih (.trans_right hrest hback), Option.map_none]

/-- What is not settled within enough steps never is. -/
theorem resolveWithin_eq_none (h : env.resolveWithin (env.columnCount + 1) type = none)
    (steps : Nat) : env.resolveWithin steps type = none := by
  obtain ⟨passed, hlength, hchain⟩ := exists_isChain_of_resolveWithin h
  obtain ⟨back, hreach, hback⟩ := exists_back_of_isChain hchain (by omega)
  exact resolveWithin_eq_none_of_transGen hreach hback steps

theorem resolve?_eq_join (hsteps : env.columnCount < steps) (type : WrittenType) :
    env.resolve? type = (env.resolveWithin steps type).join := by
  unfold resolve?
  cases hresult : env.resolveWithin (env.columnCount + 1) type with
  | none => rw [resolveWithin_eq_none hresult]
  | some result => rw [resolveWithin_mono hresult hsteps]

end DecisionLang.TypeEnv
