import DecisionLang.Proofs.Reading.Indentation

/-!
# Lines and the constructs they add

A line adds the construct at an address if the construct is there after the line and not before it.
A receiver at an open depth is a construct of an earlier line, and no line that got as far as its
depth has closed it since. Main statements: `Source.Adds.stands` and `Source.exists_openedBy`.
-/

namespace DecisionLang

/-- Lines to read after what has been read already. -/
structure Source where
  grammar : Grammar
  width : Nat
  file : String
  start : Progress
  lines : List String

namespace Source

variable (source : Source)

def readingAfter (count : Nat) : SourceReading :=
  .readLines source.grammar source.width source.file source.start (source.lines.take count)

def documentAfter (count : Nat) : Receiver :=
  .document (source.readingAfter count).progress.document

/-- A line adds the construct at an address. -/
structure Adds (index : Nat) (address : Address) : Prop where
  before : (source.documentAfter index).traceAt? address = none
  after : (source.documentAfter (index + 1)).traceAt? address ≠ none

def depth? (index : Nat) : Option Nat :=
  source.lines[index]?.bind (Line.contentDepth? source.width)

def Scans (index : Nat) : Prop := source.lines[index]?.any Line.scans = true

/-- Depth of a line that can be scanned. -/
def scannedDepth? (index : Nat) : Option Nat :=
  source.lines[index]?.bind (Line.scannedDepth? source.width)

variable {source} {index count depth : Nat} {address : Address} {path : SlotPath}

theorem scannedDepth?_eq_some :
    source.scannedDepth? index = some depth ↔
      source.depth? index = some depth ∧ source.Scans index := by
  unfold scannedDepth? depth? Scans
  cases source.lines[index]? with
  | none => simp
  | some text =>
    simp only [Option.bind_some, Option.any_some, Line.scannedDepth?]
    by_cases hscans : Line.scans text = true <;> simp [hscans]

theorem depth?_of_scannedDepth? (h : source.scannedDepth? index = some depth) :
    source.depth? index = some depth := (scannedDepth?_eq_some.1 h).1

theorem readingAfter_zero : source.readingAfter 0 = ⟨source.start, Indentation.start⟩ := rfl

theorem readingAfter_succ (h : index < source.lines.length) :
    source.readingAfter (index + 1) = (source.readingAfter index).readLine source.grammar
      source.width source.file source.lines[index] index := by
  have hlength : (source.lines.take index).length = index := by
    rw [List.length_take]
    omega
  rw [readingAfter, List.take_succ_eq_append_getElem h,
    SourceReading.readLines_append_singleton, hlength]
  rfl

theorem readingAfter_succ_of_length_le (h : source.lines.length ≤ index) :
    source.readingAfter (index + 1) = source.readingAfter index := by
  rw [readingAfter, readingAfter, List.take_of_length_le h,
    List.take_of_length_le (Nat.le_succ_of_le h)]

theorem readingAfter_length :
    (source.readingAfter source.lines.length).progress =
      source.start.readSource source.grammar source.width source.file source.lines := by
  rw [readingAfter, List.take_length, SourceReading.progress_readLines]

theorem leads (source : Source) (count : Nat) :
    (source.readingAfter count).indentation.Leads (source.documentAfter count) :=
  SourceReading.leads_readLines _

theorem move (h : index < source.lines.length) :
    SourceReading.Move source.width source.file source.lines[index] index
      (source.readingAfter index) (source.readingAfter (index + 1)) := by
  rw [readingAfter_succ h]
  exact SourceReading.move_readLine (leads source index)

theorem scannedDepth?_getElem (h : index < source.lines.length) :
    source.scannedDepth? index = Line.scannedDepth? source.width source.lines[index] := by
  rw [scannedDepth?, List.getElem?_eq_getElem h, Option.bind_some]

/-! ### Documents grow -/

theorem traceAt?_of_le {first last : Nat} {trace : Trace} (hle : first ≤ last)
    (h : (source.documentAfter first).traceAt? address = some trace) :
    (source.documentAfter last).traceAt? address = some trace := by
  induction hle with
  | refl => exact h
  | @step last _ ih =>
    by_cases hlast : last < source.lines.length
    · exact (move hlast).traceAt? ih
    · rw [documentAfter, readingAfter_succ_of_length_le (Nat.le_of_not_lt hlast)]
      exact ih

theorem Adds.length (h : source.Adds index address) : index < source.lines.length := by
  by_contra hlength
  have hafter := h.after
  rw [documentAfter, readingAfter_succ_of_length_le (Nat.le_of_not_lt hlength)] at hafter
  exact hafter h.before

/-- A construct is added once. -/
theorem Adds.index_unique {index' : Nat} (h : source.Adds index address)
    (h' : source.Adds index' address) : index = index' := by
  have hlater {first last : Nat} (hfirst : source.Adds first address)
      (hlast : source.Adds last address) : ¬ first < last := by
    intro hlt
    obtain ⟨trace, htrace⟩ := Option.ne_none_iff_exists'.1 hfirst.after
    have hbefore := hlast.before
    rw [traceAt?_of_le hlt htrace] at hbefore
    cases hbefore
  have := hlater h h'
  have := hlater h' h
  omega

theorem exists_adds {count : Nat}
    (h : (source.documentAfter count).traceAt? address ≠ none)
    (hstart : (source.documentAfter 0).traceAt? address = none) :
    ∃ index < count, source.Adds index address := by
  induction count with
  | zero => exact absurd hstart h
  | succ count ih =>
    cases hbefore : (source.documentAfter count).traceAt? address with
    | none => exact ⟨count, Nat.lt_succ_self _, hbefore, h⟩
    | some trace =>
      obtain ⟨index, hindex, hadds⟩ := ih (by simp [hbefore])
      exact ⟨index, Nat.lt_succ_of_lt hindex, hadds⟩

/-- A construct stands directly below the receiver of lines at the depth of the line that it was
read from. -/
inductive Stands (source : Source) (index : Nat) (address : Address) : Prop
  | intro {line : Line} {depth : Nat} {path : SlotPath} {below : Receiver} {relative : Address}
      {trace : Trace}
      (hline : source.lines[index]?.map (Line.read source.file index) = some (.ok line))
      (hdepth : source.scannedDepth? index = some depth)
      (hreceiver : (source.readingAfter index).indentation.receiver? depth = some path)
      (hbelow : (source.documentAfter index).at? path = some below)
      (hhosts : below.Hosts relative) (haddress : address = relative.within path)
      (hgrows : (source.documentAfter index).Grows (source.documentAfter (index + 1)) address trace)
      (htrace : trace.ComesFrom line)

theorem Adds.eq_of_grows {grown : Address} {trace : Trace} (h : source.Adds index address)
    (hgrows : (source.documentAfter index).Grows (source.documentAfter (index + 1)) grown trace) :
    address = grown := by
  by_contra hother
  have hafter := h.after
  rw [hgrows.traceAt?_eq, if_neg hother] at hafter
  exact hafter h.before

theorem Adds.stands (h : source.Adds index address) : source.Stands index address := by
  have hlength := h.length
  have hafter := h.after
  have hscanned := scannedDepth?_getElem hlength
  rw [documentAfter] at hafter
  cases move hlength with
  | idle hdocument =>
    obtain ⟨comments, hdocument⟩ := hdocument
    rw [hdocument, Receiver.traceAt?_withComments] at hafter
    exact absurd h.before hafter
  | passed _ _ hdocument | fruitless _ _ hdocument =>
    rw [hdocument] at hafter
    exact absurd h.before hafter
  | @grown line depth path below relative trace opened hline hdepth _ hreceiver hbelow hhosts hgrows
      htrace =>
    obtain rfl := h.eq_of_grows hgrows
    refine .intro ?_ (hscanned.trans hdepth) hreceiver hbelow hhosts rfl hgrows htrace
    rw [List.getElem?_eq_getElem hlength, Option.map_some, hline]

theorem Adds.address_unique {other : Address} (h : source.Adds index address)
    (hother : source.Adds index other) : other = address := by
  cases h.stands with
  | intro _ _ _ _ _ _ hgrows => exact hother.eq_of_grows hgrows

/-! ### Lines that open a depth -/

/-- An open depth leads to a construct of the line that opened it. Lines since then have been
deeper, unless they could not be scanned. -/
structure OpenedBy (source : Source) (upper count depth : Nat) (path : SlotPath) : Prop where
  hearlier : upper < count
  hdepth : source.scannedDepth? upper = some depth
  hadds : ∃ address, source.Adds upper address ∧ address.path? = some path
  hsince : ∀ between, upper < between → between < count →
    ∀ d, source.scannedDepth? between = some d → depth < d

theorem OpenedBy.succ {upper : Nat} (h : source.OpenedBy upper count depth path)
    (hlast : ∀ d, source.scannedDepth? count = some d → depth < d) :
    source.OpenedBy upper (count + 1) depth path where
  hearlier := Nat.lt_succ_of_lt h.hearlier
  hdepth := h.hdepth
  hadds := h.hadds
  hsince between hupper hbetween := by
    rcases Nat.lt_succ_iff_lt_or_eq.1 hbetween with hlt | rfl
    · exact h.hsince between hupper hlt
    · exact hlast

/-- Every open depth but the outermost one was opened by a line. -/
theorem exists_openedBy
    (h : (source.readingAfter count).indentation.receiver? (depth + 1) = some path) :
    ∃ upper, source.OpenedBy upper count depth path := by
  -- By induction on the lines read: the last one opens the depth, or keeps it open.
  induction count generalizing depth path with
  | zero => simp [readingAfter_zero, Indentation.receiver?, Indentation.start] at h
  | succ count ih =>
    by_cases hlength : count < source.lines.length
    · have hscanned := scannedDepth?_getElem hlength
      have hkept {d : Nat} (hd : source.scannedDepth? count = some d) (hlt : depth + 1 ≤ d)
          (hentry : (source.readingAfter count).indentation.receiver? (depth + 1) = some path) :
          ∃ upper, source.OpenedBy upper (count + 1) depth path := by
        obtain ⟨upper, hopened⟩ := ih hentry
        refine ⟨upper, hopened.succ fun d' hd' => ?_⟩
        rw [hd] at hd'
        cases hd'
        exact hlt
      cases move hlength with
      | idle _ hindentation hidle =>
        rw [hindentation] at h
        obtain ⟨upper, hopened⟩ := ih h
        refine ⟨upper, hopened.succ fun d hd => ?_⟩
        have hdeep := hidle d (hscanned ▸ hd)
        obtain ⟨hlt, _⟩ := List.getElem?_eq_some_iff.1 (Indentation.receiver?_eq_some.1 h)
        unfold Indentation.maxDepth at hdeep
        omega
      | passed hdepth hmost _ hentries =>
        rcases Indentation.receiver?_of_entries [none] hmost (Nat.le_refl 1) hentries h with
          ⟨hle, hentry⟩ | ⟨_, hpassed⟩
        · exact hkept (hscanned.trans hdepth) hle hentry
        · cases hpassed
      | fruitless hdepth hmost _ hentries =>
        rcases Indentation.receiver?_of_entries [] hmost (Nat.zero_le 1)
          (hentries.trans (List.append_nil _).symm) h with ⟨hle, hentry⟩ | ⟨_, hnothing⟩
        · exact hkept (hscanned.trans hdepth) hle hentry
        · cases hnothing
      | @grown line d path' below relative trace opened hline hdepth hmost hreceiver hbelow hhosts
          hgrows htrace hentries hopened =>
        have hone : opened.length ≤ 1 := by
          rcases hopened with rfl | ⟨_, _, _, rfl, _⟩ <;> simp
        rcases Indentation.receiver?_of_entries opened hmost hone hentries h with
          ⟨hle, hentry⟩ | ⟨hdeeper, hnew⟩
        · exact hkept (hscanned.trans hdepth) hle hentry
        · -- The line opened the depth itself: it added the construct that the path leads to.
          cases hdeeper
          rcases hopened with rfl | ⟨further, _, hfurther, rfl, _⟩
          · cases hnew
          · cases hnew
            refine ⟨count, Nat.lt_succ_self _, hscanned.trans hdepth,
              ⟨relative.within path', ⟨hgrows.traceAt?_address, ?_⟩, ?_⟩, ?_⟩
            · rw [documentAfter, hgrows.traceAt?_eq, if_pos rfl]
              exact Option.some_ne_none _
            · rw [Address.path?_within, hfurther]
              rfl
            · omega
    · rw [readingAfter_succ_of_length_le (Nat.le_of_not_lt hlength)] at h
      obtain ⟨upper, hopened⟩ := ih h
      refine ⟨upper, hopened.succ fun d hd => ?_⟩
      rw [scannedDepth?, List.getElem?_eq_none (Nat.le_of_not_lt hlength)] at hd
      cases hd

end Source

end DecisionLang
