import DecisionLang.Moment

/-!
# Moments written and read again

Fields are padded with zeros and never cut short, so the text of every moment that has been read is
read as the same moment: `Moment.read_content`.
-/

namespace DecisionLang

namespace Moment

variable {moment : Moment} {width value : Nat}

theorem isDigit_of_mem_padded {c : Char} (h : c ∈ padded width value) : c.isDigit = true := by
  rcases List.mem_append.1 h with hzero | hdigit
  · rw [List.eq_of_mem_replicate hzero]
    rfl
  · exact Nat.isDigit_of_mem_toDigits (by omega) (by omega) hdigit

theorem notMem_padded {c : Char} (h : c.isDigit = false) : c ∉ padded width value := by
  intro hmem
  rw [isDigit_of_mem_padded hmem] at h
  cases h

theorem padded_ne_nil : padded width value ≠ [] := by
  simp [padded, Nat.toDigits_ne_nil]

/-- Zeros in front do not change what a field says. -/
theorem field?_padded (h : value < fieldLimit) : field? (padded width value) = some value := by
  have hdigits : (padded width value).all Char.isDigit = true :=
    List.all_eq_true.2 fun _ => isDigit_of_mem_padded
  have hvalue : (padded width value).foldl (fun value c => 10 * value + (c.toNat - '0'.toNat)) 0 =
      value := by
    change Nat.ofDigitChars 10 (padded width value) 0 = value
    rw [padded, Nat.ofDigitChars_append, Nat.ofDigitChars_replicate_zero]
    simp [Nat.ofDigitChars_ten_toDigits]
  rw [field?, hdigits, List.isEmpty_eq_false_iff.2 padded_ne_nil]
  simp only [Bool.not_true, Bool.or_self, Bool.false_eq_true, if_false]
  rw [hvalue, if_pos h]

theorem fields?_padded {separator : Char} {w₁ w₂ w₃ first second third : Nat}
    (hseparator : separator.isDigit = false) (hfirst : first < fieldLimit)
    (hsecond : second < fieldLimit) (hthird : third < fieldLimit) :
    fields? separator (padded w₁ first ++ separator :: padded w₂ second ++ separator ::
      padded w₃ third) = some (first, second, third) := by
  rw [List.append_assoc, List.cons_append, fields?,
    Text.splitAt_append_cons (notMem_padded hseparator),
    Text.splitAt_append_cons (notMem_padded hseparator),
    Text.splitAt_of_notMem (notMem_padded hseparator)]
  simp [field?_padded, hfirst, hsecond, hthird]

def IsValid (moment : Moment) : Prop :=
  check moment.year moment.month moment.day moment.hour moment.minute moment.second = .ok moment

theorem isValid_of_check {year month day hour minute second : Nat}
    (h : check year month day hour minute second = .ok moment) : moment.IsValid := by
  have heq : moment = ⟨year, month, day, hour, minute, second⟩ := by
    unfold check at h
    repeat' split at h
    all_goals cases h
    rfl
  subst heq
  exact h

theorem isValid_of_read {text : List Char} (h : read text = .ok moment) : moment.IsValid := by
  unfold read at h
  dsimp only at h
  split at h
  · cases h
  · split at h
    · exact isValid_of_check h
    · split at h
      · cases h
      · exact isValid_of_check h

theorem daysInMonth_le (year month : Nat) : daysInMonth year month ≤ 31 := by
  unfold daysInMonth
  repeat' split
  all_goals omega

/-- The fields of a moment are small enough to be read. -/
theorem IsValid.lt_fieldLimit (h : moment.IsValid) :
    moment.year < fieldLimit ∧ moment.month < fieldLimit ∧ moment.day < fieldLimit ∧
      moment.hour < fieldLimit ∧ moment.minute < fieldLimit ∧ moment.second < fieldLimit := by
  have hlimit : yearLimit < fieldLimit ∧ 100 < fieldLimit := by decide
  have hdays := daysInMonth_le moment.year moment.month
  simp only [IsValid, check, Bool.or_eq_true, decide_eq_true_eq] at h
  split at h
  · cases h
  split at h
  · cases h
  split at h
  · cases h
  split at h
  · cases h
  · omega

theorem read_content (h : moment.IsValid) : read moment.content = .ok moment := by
  obtain ⟨hyear, hmonth, hday, hhour, hminute, hsecond⟩ := h.lt_fieldLimit
  have hdate : ∀ c ∈ padded 4 moment.year ++ '-' :: padded 2 moment.month ++ '-' ::
      padded 2 moment.day, (c != 'T') = true := by
    intro c hc
    simp only [List.mem_append, List.mem_cons] at hc
    rw [bne_iff_ne]
    rintro rfl
    simp [notMem_padded (show ('T').isDigit = false from rfl)] at hc
  have hcontent : moment.content =
      (padded 4 moment.year ++ '-' :: padded 2 moment.month ++ '-' :: padded 2 moment.day) ++
        'T' :: (padded 2 moment.hour ++ ':' :: padded 2 moment.minute ++ ':' ::
          padded 2 moment.second) := by
    simp [content]
  rw [hcontent, read, List.takeWhile_append_of_pos hdate, List.dropWhile_append_of_pos hdate]
  simp only [List.takeWhile_cons, List.dropWhile_cons, bne_self_eq_false, Bool.false_eq_true,
    if_false, List.append_nil]
  rw [fields?_padded rfl hyear hmonth hday]
  dsimp only
  rw [fields?_padded rfl hhour hminute hsecond]
  exact h

end Moment

end DecisionLang
