import DecisionLang.Proofs.Moment
import Mathlib.Data.List.TakeWhile
import Mathlib.Data.Nat.Digits.Defs

/-!
# Texts that denote moments

A moment is written as three fields of the date, with or without three fields of the time of day
after a `T`. `Moment.Written` says so without splitting the text, and `Moment.OnCalendar` states
the rules of the calendar without a table of months. Main statement: `Moment.read_exact`.
-/

namespace DecisionLang

namespace Moment

/-- A nonempty run of ASCII digits, whose value has at most thirty-two bits. -/
structure IsField (text : List Char) (value : Nat) : Prop where
  ne_nil : text ≠ []
  digits : ∀ c ∈ text, '0' ≤ c ∧ c ≤ '9'
  /-- The last digit counts ones. -/
  value_eq : Nat.ofDigits 10 (text.reverse.map fun c => c.toNat - '0'.toNat) = value
  lt : value < 2 ^ 32

/-- Three fields with separators between them. -/
inductive IsTriple (separator : Char) : List Char → Nat → Nat → Nat → Prop
  | intro {text₁ text₂ text₃ first second third} (hfirst : IsField text₁ first)
      (hsecond : IsField text₂ second) (hthird : IsField text₃ third) :
      IsTriple separator (text₁ ++ separator :: text₂ ++ separator :: text₃) first second third

/-- A text states the fields of a moment. A time of day that is left out is midnight. -/
inductive Written : List Char → Moment → Prop
  | day {date year month day} (hdate : IsTriple '-' date year month day) :
      Written date ⟨year, month, day, 0, 0, 0⟩
  | time {date time year month day hour minute second}
      (hdate : IsTriple '-' date year month day)
      (htime : IsTriple ':' time hour minute second) :
      Written (date ++ 'T' :: time) ⟨year, month, day, hour, minute, second⟩

/-- Every fourth year is a leap year, except for those that end a century, of which only every
fourth is one. -/
def IsLeap (year : Nat) : Prop := 4 ∣ year ∧ (100 ∣ year → 400 ∣ year)

/-- The day exists in the Gregorian calendar and the time on a day. -/
structure OnCalendar (moment : Moment) : Prop where
  year : moment.year ≤ 65535
  month : 1 ≤ moment.month ∧ moment.month ≤ 12
  day : 1 ≤ moment.day ∧ moment.day ≤ 31
  /-- April, June, September and November have thirty days. -/
  short : moment.month ∈ [4, 6, 9, 11] → moment.day ≤ 30
  february : moment.month = 2 → moment.day ≤ 28 ∨ moment.day = 29 ∧ IsLeap moment.year
  time : moment.hour ≤ 23 ∧ moment.minute ≤ 59 ∧ moment.second ≤ 59

/-- Sixteen bits hold the year, and eight bits each of the other fields. -/
def Fits (moment : Moment) : Prop :=
  moment.year.toUInt16.toNat = moment.year ∧ moment.month.toUInt8.toNat = moment.month ∧
    moment.day.toUInt8.toNat = moment.day ∧ moment.hour.toUInt8.toNat = moment.hour ∧
    moment.minute.toUInt8.toNat = moment.minute ∧ moment.second.toUInt8.toNat = moment.second

variable {text : List Char} {separator : Char} {first second third value : Nat} {moment : Moment}

/-! ### Fields -/

theorem isDigit_iff {c : Char} : c.isDigit = true ↔ '0' ≤ c ∧ c ≤ '9' := by
  simp only [Char.isDigit, Bool.and_eq_true, decide_eq_true_eq]
  rfl

/-- Digits are read from the first one on, and counted from the last one on. -/
theorem foldl_digits (text : List Char) :
    text.foldl (fun value c => 10 * value + (c.toNat - '0'.toNat)) 0 =
      Nat.ofDigits 10 (text.reverse.map fun c => c.toNat - '0'.toNat) := by
  rw [Nat.ofDigits_eq_foldr, List.foldr_map, List.foldr_reverse]
  simp only [Nat.cast_id, Nat.add_comm]

theorem field?_eq_some_iff : field? text = some value ↔ IsField text value := by
  unfold field?
  rw [foldl_digits]
  dsimp only
  constructor
  · intro h
    split at h
    · cases h
    · next hform =>
      split at h
      · next hlt =>
        cases h
        simp only [Bool.or_eq_true, Bool.not_eq_true', not_or, Bool.not_eq_false,
          List.isEmpty_iff, List.all_eq_true] at hform
        exact ⟨hform.1, fun c hc => isDigit_iff.1 (hform.2 c hc), rfl, hlt⟩
      · cases h
  · rintro ⟨hne, hdigits, rfl, hlt⟩
    have hall : text.all Char.isDigit = true :=
      List.all_eq_true.2 fun c hc => isDigit_iff.2 (hdigits c hc)
    rw [hall, List.isEmpty_eq_false_iff.2 hne]
    exact if_pos hlt

theorem IsField.notMem (h : IsField text value) (hseparator : separator.isDigit = false) :
    separator ∉ text := by
  intro hmem
  rw [isDigit_iff.2 (h.digits separator hmem)] at hseparator
  cases hseparator

theorem fields?_eq_some_iff (hseparator : separator.isDigit = false) :
    fields? separator text = some (first, second, third) ↔
      IsTriple separator text first second third := by
  constructor
  · intro h
    unfold fields? at h
    split at h
    · next text₁ text₂ text₃ hpieces =>
      simp only [Option.bind_eq_bind, Option.bind_eq_some_iff] at h
      obtain ⟨_, hfirst, _, hsecond, _, hthird, heq⟩ := h
      cases heq
      rw [← Text.intercalate_splitAt separator text, hpieces]
      have hjoined : [separator].intercalate [text₁, text₂, text₃] =
          text₁ ++ separator :: text₂ ++ separator :: text₃ := by simp [List.intercalate]
      rw [hjoined]
      exact .intro (field?_eq_some_iff.1 hfirst) (field?_eq_some_iff.1 hsecond)
        (field?_eq_some_iff.1 hthird)
    · cases h
  · rintro ⟨hfirst, hsecond, hthird⟩
    rw [List.append_assoc, List.cons_append, fields?,
      Text.splitAt_append_cons (hfirst.notMem hseparator),
      Text.splitAt_append_cons (hsecond.notMem hseparator),
      Text.splitAt_of_notMem (hthird.notMem hseparator)]
    simp only [field?_eq_some_iff.2 hfirst, field?_eq_some_iff.2 hsecond,
      field?_eq_some_iff.2 hthird]
    rfl

/-- A date goes on to its end: no `T` is in it. -/
theorem IsTriple.ne_of_mem (h : IsTriple '-' text first second third) :
    ∀ c ∈ text, (c != 'T') = true := by
  obtain ⟨hfirst, hsecond, hthird⟩ := h
  have hout : ('T').isDigit = false := rfl
  intro c hc
  rw [bne_iff_ne]
  rintro rfl
  simp [hfirst.notMem hout, hsecond.notMem hout, hthird.notMem hout] at hc

/-! ### The calendar -/

theorem isLeapYear_iff {year : Nat} : isLeapYear year = true ↔ IsLeap year := by
  simp only [isLeapYear, IsLeap, Bool.or_eq_true, Bool.and_eq_true, beq_iff_eq, bne_iff_ne]
  omega

theorem le_daysInMonth_iff {year month day : Nat} :
    day ≤ daysInMonth year month ↔ day ≤ 31 ∧ (month ∈ [4, 6, 9, 11] → day ≤ 30) ∧
      (month = 2 → day ≤ 28 ∨ day = 29 ∧ IsLeap year) := by
  have hleap := @isLeapYear_iff year
  unfold daysInMonth
  split
  · split
    · next h =>
      have h := hleap.1 h
      simp only [h, and_true]
      grind
    · next h =>
      have h := mt hleap.2 h
      simp only [h, and_false]
      grind
  all_goals grind

theorem check_eq_ok_iff {year month day hour minute second : Nat} :
    check year month day hour minute second = .ok moment ↔
      moment = ⟨year, month, day, hour, minute, second⟩ ∧ moment.OnCalendar := by
  have hlimit : yearLimit = 65536 := by decide
  constructor
  · intro h
    unfold check at h
    simp only [Bool.or_eq_true, decide_eq_true_eq] at h
    split at h
    · cases h
    split at h
    · cases h
    split at h
    · cases h
    split at h
    · cases h
    next hyear hmonth hday htime =>
    cases h
    obtain ⟨hzero, hlast⟩ := not_or.1 hday
    obtain ⟨hdays, hshort, hfebruary⟩ := le_daysInMonth_iff.1 (Nat.le_of_not_lt hlast)
    have hyear : year ≤ 65535 := by omega
    have hmonth : 1 ≤ month ∧ month ≤ 12 := by omega
    have htime : hour ≤ 23 ∧ minute ≤ 59 ∧ second ≤ 59 := by omega
    exact ⟨rfl, hyear, hmonth, ⟨Nat.pos_of_ne_zero hzero, hdays⟩, hshort, hfebruary, htime⟩
  · rintro ⟨rfl, hyear, hmonth, hday, hshort, hfebruary, htime⟩
    have hdays : day ≤ daysInMonth year month := le_daysInMonth_iff.2 ⟨hday.2, hshort, hfebruary⟩
    dsimp only at hyear hmonth hday htime
    unfold check
    simp only [Bool.or_eq_true, decide_eq_true_eq]
    rw [if_neg (by omega), if_neg (by omega), if_neg (by omega), if_neg (by omega)]

theorem OnCalendar.fits (h : moment.OnCalendar) : moment.Fits := by
  obtain ⟨hyear, hmonth, hday, _, _, htime⟩ := h
  simp only [Fits, Nat.toUInt16, Nat.toUInt8, UInt16.toNat_ofNat', UInt8.toNat_ofNat']
  omega

/-! ### Texts -/

theorem read_of_written (h : Written text moment) (hcalendar : moment.OnCalendar) :
    read text = .ok moment := by
  cases h with
  | day hdate =>
    rw [read, List.takeWhile_eq_self_iff.2 hdate.ne_of_mem,
      List.dropWhile_eq_nil_iff.2 hdate.ne_of_mem]
    dsimp only
    rw [(fields?_eq_some_iff rfl).2 hdate]
    exact check_eq_ok_iff.2 ⟨rfl, hcalendar⟩
  | time hdate htime =>
    rw [read, List.takeWhile_append_of_pos hdate.ne_of_mem,
      List.dropWhile_append_of_pos hdate.ne_of_mem]
    simp only [List.takeWhile_cons, List.dropWhile_cons, bne_self_eq_false, Bool.false_eq_true,
      if_false, List.append_nil]
    rw [(fields?_eq_some_iff rfl).2 hdate]
    dsimp only
    rw [(fields?_eq_some_iff rfl).2 htime]
    exact check_eq_ok_iff.2 ⟨rfl, hcalendar⟩

theorem written_of_read (h : read text = .ok moment) : Written text moment ∧ moment.OnCalendar := by
  unfold read at h
  dsimp only at h
  split at h
  · cases h
  · next hdate =>
    have hdate := (fields?_eq_some_iff rfl).1 hdate
    split at h
    · next hnone =>
      obtain ⟨rfl, hcalendar⟩ := check_eq_ok_iff.1 h
      rw [List.takeWhile_eq_self_iff.2 (List.dropWhile_eq_nil_iff.1 hnone)] at hdate
      exact ⟨.day hdate, hcalendar⟩
    · next c time hrest =>
      split at h
      · cases h
      · next htime =>
        have htime := (fields?_eq_some_iff rfl).1 htime
        obtain ⟨rfl, hcalendar⟩ := check_eq_ok_iff.1 h
        obtain rfl : c = 'T' := by
          have hhead := List.head?_dropWhile_not (· != 'T') text
          simpa [hrest] using hhead
        have htext := List.takeWhile_append_dropWhile (p := (· != 'T')) (l := text)
        rw [hrest] at htext
        rw [← htext]
        exact ⟨.time hdate htime, hcalendar⟩

/-- A text is read as a moment exactly if it states the fields of that moment and the moment is on
the calendar. All of its fields have as many bits as they are stored with, and what stands between
the quotes of its literal is read as the same moment. -/
theorem read_exact (text : List Char) (moment : Moment) :
    (read text = .ok moment ↔ Written text moment ∧ moment.OnCalendar) ∧
      (read text = .ok moment → moment.Fits ∧
        moment.text.toList = 'd' :: '"' :: (moment.content ++ ['"']) ∧
        read moment.content = .ok moment) := by
  refine ⟨⟨written_of_read, fun h => read_of_written h.1 h.2⟩, fun hread => ?_⟩
  have hcalendar := (written_of_read hread).2
  exact ⟨hcalendar.fits, String.toList_ofList, read_content (isValid_of_read hread)⟩

/-- The last day of February in a leap year, with fields of more digits than are needed. -/
theorem read_exact_leapDay :
    read "02024-2-029T1:05:9".toList = .ok ⟨2024, 2, 29, 1, 5, 9⟩ ∧
      Written "02024-2-029T1:05:9".toList ⟨2024, 2, 29, 1, 5, 9⟩ ∧
      OnCalendar ⟨2024, 2, 29, 1, 5, 9⟩ ∧ Fits ⟨2024, 2, 29, 1, 5, 9⟩ ∧
      Moment.text ⟨2024, 2, 29, 1, 5, 9⟩ = "d\"2024-02-29T01:05:09\"" ∧
      read "2024-02-29T01:05:09".toList = .ok ⟨2024, 2, 29, 1, 5, 9⟩ := by
  have hread : read "02024-2-029T1:05:9".toList = .ok ⟨2024, 2, 29, 1, 5, 9⟩ := by decide +kernel
  obtain ⟨hiff, hback⟩ := read_exact "02024-2-029T1:05:9".toList ⟨2024, 2, 29, 1, 5, 9⟩
  obtain ⟨hwritten, hcalendar⟩ := hiff.1 hread
  obtain ⟨hfits, _, hcontent⟩ := hback hread
  exact ⟨hread, hwritten, hcalendar, hfits, by decide +kernel, hcontent⟩

end Moment

end DecisionLang
