import DecisionLang.Proofs.Reading.Source

/-!
# Lines above lines

A construct belongs below the nearest earlier line that is less deep. It stands below a construct
of that line if the line can be scanned. A line that cannot be scanned closes nothing, and what is
indented below it goes to whoever receives lines at that depth from before. Main statement:
`Source.wellPlaced_iff`.
-/

namespace DecisionLang

namespace Source

/-- The nearest earlier line with content that is less deep. -/
structure IsAbove (source : Source) (upper lower depth : Nat) : Prop where
  hearlier : upper < lower
  hshallower : ∃ d < depth, source.depth? upper = some d
  hnearest : ∀ between, upper < between → between < lower →
    ∀ d, source.depth? between = some d → depth ≤ d

/-- The line `lower` has placed a construct directly below a construct of the line `upper`. -/
def StandsBelow (source : Source) (upper lower : Nat) (address : Address) : Prop :=
  ∃ above path below relative, source.Adds upper above ∧ above.path? = some path ∧
    (source.documentAfter lower).at? path = some below ∧ below.Hosts relative ∧
    address = relative.within path

/-- Every construct but the outermost ones stands directly below a construct of the nearest earlier
line that is less deep. -/
def WellPlaced (source : Source) : Prop :=
  ∀ lower address depth, source.Adds lower address → source.depth? lower = some depth → 0 < depth →
    ∃ upper, source.IsAbove upper lower depth ∧ source.StandsBelow upper lower address

variable {source : Source} {upper upper' lower depth : Nat} {address : Address}

theorem IsAbove.unique (h : source.IsAbove upper lower depth)
    (h' : source.IsAbove upper' lower depth) : upper = upper' := by
  have hnot {first second : Nat} (hfirst : source.IsAbove first lower depth)
      (hsecond : source.IsAbove second lower depth) : ¬ first < second := by
    intro hlt
    obtain ⟨d, hd, hdepth⟩ := hsecond.hshallower
    have := hfirst.hnearest second hlt hsecond.hearlier d hdepth
    omega
  have := hnot h h'
  have := hnot h' h
  omega

theorem exists_isAbove {d : Nat} (hearlier : upper < lower)
    (hdepth : source.depth? upper = some d) (hd : d < depth) :
    ∃ nearest, source.IsAbove nearest lower depth := by
  induction lower with
  | zero => omega
  | succ lower ih =>
    by_cases hlast : ∃ d < depth, source.depth? lower = some d
    · exact ⟨lower, Nat.lt_succ_self _, hlast, fun between hupper hbetween => by omega⟩
    · have hupper : upper ≠ lower := by
        rintro rfl
        exact hlast ⟨d, hd, hdepth⟩
      obtain ⟨nearest, hnearest⟩ := ih (by omega)
      refine ⟨nearest, Nat.lt_succ_of_lt hnearest.hearlier, hnearest.hshallower, ?_⟩
      intro between hbetween hlower d' hd'
      rcases Nat.lt_succ_iff_lt_or_eq.1 hlower with hlt | rfl
      · exact hnearest.hnearest between hbetween hlt d' hd'
      · by_contra hshallower
        exact hlast ⟨d', Nat.lt_of_not_le hshallower, hd'⟩

/-- The line that has opened the depth of a construct. -/
theorem Adds.exists_openedBy (h : source.Adds lower address)
    (hdepth : source.depth? lower = some (depth + 1)) :
    ∃ upper path, source.OpenedBy upper lower depth path ∧
      source.StandsBelow upper lower address := by
  obtain @⟨_, depth', path, below, relative, _, _, hscanned, hreceiver, hbelow, hhosts, haddress,
    _⟩ := h.stands
  rw [depth?_of_scannedDepth? hscanned] at hdepth
  cases hdepth
  obtain ⟨upper, hopened⟩ := Source.exists_openedBy hreceiver
  obtain ⟨above, hadds, hpath⟩ := hopened.hadds
  exact ⟨upper, path, hopened, above, path, below, relative, hadds, hpath, hbelow, hhosts, haddress⟩

theorem StandsBelow.scans (h : source.StandsBelow upper lower address) : source.Scans upper := by
  obtain ⟨_, _, _, _, hadds, _⟩ := h
  cases hadds.stands with
  | intro _ hdepth => exact (scannedDepth?_eq_some.1 hdepth).2

/-- Below a line that can be scanned, the depth has been opened by that line. -/
theorem OpenedBy.eq_of_isAbove {path : SlotPath} (h : source.OpenedBy upper' lower depth path)
    (habove : source.IsAbove upper lower (depth + 1)) (hscans : source.Scans upper) :
    upper' = upper := by
  obtain ⟨d, hd, hdepth⟩ := habove.hshallower
  rcases Nat.lt_trichotomy upper' upper with hlt | heq | hgt
  · have := h.hsince upper hlt habove.hearlier d (scannedDepth?_eq_some.2 ⟨hdepth, hscans⟩)
    omega
  · exact heq
  · have := habove.hnearest upper' hgt h.hearlier depth (depth?_of_scannedDepth? h.hdepth)
    omega

/-- All constructs are where they belong exactly if none has a line that cannot be scanned as the
nearest earlier one that is less deep. Lines that are refused for other reasons do no harm. -/
theorem wellPlaced_iff (source : Source) :
    source.WellPlaced ↔ ∀ lower address depth upper, source.Adds lower address →
      source.depth? lower = some depth → 0 < depth → source.IsAbove upper lower depth →
        source.Scans upper := by
  constructor
  · intro h lower address depth upper hadds hdepth hpos habove
    obtain ⟨upper', habove', hbelow⟩ := h lower address depth hadds hdepth hpos
    rw [habove.unique habove']
    exact hbelow.scans
  · intro h lower address depth hadds hdepth hpos
    obtain ⟨depth, rfl⟩ := Nat.exists_eq_succ_of_ne_zero (Nat.ne_of_gt hpos)
    obtain ⟨opener, path, hopened, hbelow⟩ := hadds.exists_openedBy hdepth
    obtain ⟨upper, habove⟩ := exists_isAbove hopened.hearlier
      (depth?_of_scannedDepth? hopened.hdepth) (Nat.lt_succ_self depth)
    have hscans := h lower address _ upper hadds hdepth hpos habove
    rw [hopened.eq_of_isAbove habove hscans] at hbelow
    exact ⟨upper, habove, hbelow⟩

/-- A quoted text that is not closed, in the first line of a block that follows another block. -/
def unclosedQuote : Source where
  grammar := .standard
  width := 2
  file := "test.lexy"
  start := {}
  lines := ["function A", "  code", "    if true", "      number X = 1", "    if \"open",
    "      number Y = 2"]

/-- What is indented below the faulty line goes to the block before it. -/
theorem not_wellPlaced_unclosedQuote : ¬ unclosedQuote.WellPlaced := by
  intro hplaced
  have hadds : unclosedQuote.Adds 5 ⟨[0, 2, 0, 0], .statement 1⟩ :=
    ⟨by decide +kernel, by decide +kernel⟩
  obtain ⟨upper, habove, hbelow⟩ := hplaced 5 _ 3 hadds (by decide +kernel) (by decide)
  have hlast : unclosedQuote.depth? 4 = some 2 := by decide +kernel
  have hupper : upper = 4 := by
    have hearlier := habove.hearlier
    by_contra hne
    have := habove.hnearest 4 (by omega) (by decide) 2 hlast
    omega
  have hscans := hbelow.scans
  rw [hupper] at hscans
  exact absurd hscans (by unfold Scans; decide +kernel)

end Source

end DecisionLang
