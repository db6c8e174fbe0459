/-!
# Items on the way

A search that never enters an item that is already on its way ends: each step leaves fewer of
finitely many items to be met. Main statement: `unmet_cons_lt`.
-/

namespace DecisionLang

variable {α : Type} [BEq α] [LawfulBEq α]

/-- How many items are not on the way. -/
def unmet (items visiting : List α) : Nat := items.countP fun item => decide (item ∉ visiting)

theorem unmet_cons_le (items visiting : List α) (item : α) :
    unmet items (item :: visiting) ≤ unmet items visiting :=
  List.countP_mono_left fun other _ => by simp

theorem unmet_cons_lt {items visiting : List α} {item : α} (h : item ∈ items)
    (hv : item ∉ visiting) : unmet items (item :: visiting) < unmet items visiting := by
  induction items with
  | nil => cases h
  | cons head tail ih =>
    have hle := unmet_cons_le tail visiting item
    unfold unmet at *
    simp only [List.countP_cons]
    rcases List.mem_cons.1 h with rfl | h
    · rw [if_neg (by simp), if_pos (by simpa using hv)]
      exact Nat.lt_succ_of_le hle
    · have := ih h
      have : (if decide (head ∉ item :: visiting) = true then 1 else 0) ≤
          if decide (head ∉ visiting) = true then 1 else 0 := by
        by_cases hm : head ∈ visiting
        · simp [hm]
        · rw [if_pos (decide_eq_true hm)]
          split
          · exact Nat.le_refl 1
          · exact Nat.zero_le 1
      omega

end DecisionLang
