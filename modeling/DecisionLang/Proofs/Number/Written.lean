import DecisionLang.Number
import DecisionLang.Number.Shortest

/-!
# Text of numbers

The text of a finite magnitude is a run of digits, with a point and a second run if it has a
fraction: `Number.isDecimal_magnitudeText`. Which digits these are is not looked at here;
`Number.IsWritten` says of a number that they read back as it.
-/

namespace DecisionLang.Number

def IsDecimal (text : List Char) : Prop :=
  ∃ whole fraction, whole ≠ [] ∧ (∀ c ∈ whole, c.isDigit = true) ∧
    (∀ c ∈ fraction, c.isDigit = true) ∧
    (text = whole ∨ fraction ≠ [] ∧ text = whole ++ '.' :: fraction)

/-- A finite number whose text is read as the same number. -/
def IsWritten (number : Number) : Prop :=
  number.magnitude ≠ .infinite ∧ ofDecimal number.text.toList = number

instance (number : Number) : Decidable number.IsWritten :=
  inferInstanceAs (Decidable (_ ∧ _))

theorem isDecimal_of_digits {text : List Char} (hne : text ≠ [])
    (h : ∀ c ∈ text, c.isDigit = true) : IsDecimal text :=
  ⟨text, [], hne, h, by simp, .inl rfl⟩

theorem isDigit_of_mem_toDigits {digits : Nat} {c : Char} (h : c ∈ Nat.toDigits 10 digits) :
    c.isDigit = true := Nat.isDigit_of_mem_toDigits (by omega) (by omega) h

theorem isDecimal_positional (digits : Nat) (power : Int) :
    IsDecimal (positional digits power).toList := by
  have hzero (c : Char) (count : Nat) (h : c ∈ List.replicate count '0') : c.isDigit = true := by
    rw [List.eq_of_mem_replicate h]
    rfl
  unfold positional
  dsimp only
  split
  · rw [String.toList_ofList]
    refine isDecimal_of_digits (by simp [Nat.toDigits_ne_nil]) fun c hc => ?_
    rcases List.mem_append.1 hc with hc | hc
    · exact isDigit_of_mem_toDigits hc
    · exact hzero c _ hc
  · generalize hplaces : (-power).toNat = places
    generalize htext : List.replicate (places + 1 - (Nat.toDigits 10 digits).length) '0' ++
      Nat.toDigits 10 digits = text
    have hdigits : ∀ c ∈ text, c.isDigit = true := by
      subst htext
      intro c hc
      rcases List.mem_append.1 hc with hc | hc
      · exact hzero c _ hc
      · exact isDigit_of_mem_toDigits hc
    have hlength : places + 1 ≤ text.length := by
      rw [← htext, List.length_append, List.length_replicate]
      omega
    have hwhole : text.take (text.length - places) ≠ [] := by
      rw [ne_eq, List.take_eq_nil_iff]
      rintro (hnone | rfl)
      · omega
      · simp at hlength
    have hdigitsWhole : ∀ c ∈ text.take (text.length - places), c.isDigit = true :=
      fun c hc => hdigits c (List.mem_of_mem_take hc)
    split
    · rw [String.toList_ofList]
      exact isDecimal_of_digits hwhole hdigitsWhole
    · next hfraction =>
      rw [String.toList_ofList]
      refine ⟨_, _, hwhole, hdigitsWhole, fun c hc => ?_, .inr ⟨?_, rfl⟩⟩
      · have hdropped := (List.dropWhile_sublist _).subset (List.mem_reverse.1 hc)
        exact hdigits c (List.mem_of_mem_drop (List.mem_reverse.1 hdropped))
      · simpa using hfraction

/-- The text of a finite magnitude is a decimal. -/
theorem isDecimal_magnitudeText {magnitude : Magnitude} (h : magnitude ≠ .infinite) :
    IsDecimal (magnitudeText magnitude).toList := by
  unfold magnitudeText
  split
  · exact absurd rfl h
  · show IsDecimal ['0']
    exact isDecimal_of_digits (List.cons_ne_nil _ _) (by simp)
  · exact isDecimal_positional _ _

end DecisionLang.Number
