import DecisionLang.Proofs.Log
import DecisionLang.Proofs.Reading.Taken
import DecisionLang.Reading.Inclusion
import Mathlib.Logic.Relation

/-!
# Readings as runs

Whatever the lines and the files they include, a reading is a run of two kinds of steps: a line is
taken, or something happens that leaves the declarations as they are. Invariants of what has been
read are proved for one step. Main statements: `Progress.reads_readSource` and
`Progress.reads_readIncluding`.
-/

namespace DecisionLang

namespace Progress

/-- One step of a reading. -/
inductive Step (grammar : Grammar) (progress progress' : Progress) : Prop
  /-- A fault, a refused line, a comment, or an inclusion that is processed. -/
  | idle (hdeclarations : progress'.document.declarations = progress.document.declarations)
      (hnext : progress.nextId ≤ progress'.nextId) (hlog : progress.log.Continues progress'.log)
  | take {file text : String} {index : Nat} {line : Line} {path : SlotPath}
      {received : Received Receiver} (hline : Line.read file index text = .ok line)
      (htaken : Receiver.Takes grammar line path (.document progress.document) progress.nextId
        received progress'.nextId)
      (hdocument : received.receiver = .document progress'.document)
      (hlog : progress.log.Continues progress'.log)
      (hremarks : received.remarks ≠ [] → progress'.log.hasErrors = true)

abbrev Reads (grammar : Grammar) : Progress → Progress → Prop :=
  Relation.ReflTransGen (Step grammar)

variable {grammar : Grammar} {progress progress' : Progress} {line : Line} {file text : String}
  {index : Nat}

theorem Step.continues (h : Step grammar progress progress') :
    progress.log.Continues progress'.log := by
  cases h with
  | idle _ _ hlog => exact hlog
  | take _ _ _ hlog _ => exact hlog

theorem Reads.continues (h : Reads grammar progress progress') :
    progress.log.Continues progress'.log := by
  induction h with
  | refl => exact .refl _
  | tail _ hstep ih => exact ih.trans hstep.continues

theorem reads_report (owner : Option String) (diagnostic : Diagnostic) :
    Reads grammar progress (progress.report owner diagnostic) :=
  .single (.idle rfl (Nat.le_refl _) (.reportFor _ _ _))

theorem reads_foldl {σ α : Type} (view : σ → Progress) {step : σ → α → σ}
    (hstep : ∀ state item, Reads grammar (view state) (view (step state item))) (items : List α)
    (state : σ) : Reads grammar (view state) (view (items.foldl step state)) := by
  induction items generalizing state with
  | nil => exact .refl
  | cons item items ih => exact (hstep state item).trans (ih _)

theorem foldl_remark (owner : Option String) (remarks : List Remark) (progress : Progress) :
    (remarks.foldl (remark owner) progress).document = progress.document ∧
      (remarks.foldl (remark owner) progress).nextId = progress.nextId ∧
      progress.log.Continues (remarks.foldl (remark owner) progress).log ∧
      (remarks ≠ [] → (remarks.foldl (remark owner) progress).log.hasErrors = true) := by
  induction remarks generalizing progress with
  | nil => exact ⟨rfl, rfl, .refl _, fun h => absurd rfl h⟩
  | cons first remarks ih =>
    obtain ⟨hdocument, hnext, hlog, _⟩ := ih (progress.remark owner first)
    refine ⟨hdocument, hnext, (Log.Continues.reportFor _ _ _).trans hlog, fun _ => ?_⟩
    exact hlog.hasErrors (Log.hasErrors_report _ _)

theorem reads_take? {path : SlotPath} {owner : Option String} {answer : Answer}
    (hline : Line.read file index text = .ok line)
    (h : progress.take? grammar line path owner = some (progress', answer)) :
    Reads grammar progress progress' := by
  unfold take? at h
  split at h
  · cases h
  · next reading hreading =>
    split at h
    · next diagnostic next hrun =>
      cases h
      have hspends := Receiver.spends_of_receiveAt? hreading progress.nextId
      rw [hrun] at hspends
      exact .single (.idle rfl hspends (.reportFor _ _ _))
    · next received next hrun =>
      split at h
      · next document hdocument =>
        cases h
        obtain ⟨hkept, hnext, hlog, hremarks⟩ :=
          foldl_remark owner received.remarks { progress with document, nextId := next }
        refine .single (@Step.take _ _ _ _ _ _ line path received hline ?_ ?_ hlog hremarks)
        · rw [hnext]
          exact Receiver.takes_of_receiveAt? hreading hrun
        · rw [hkept, hdocument]
      · cases h

end Progress

/-! ### Lines of a source -/

namespace SourceReading

open Progress

variable {grammar : Grammar} {line : Line} {file text : String} {index : Nat}

theorem reads_give (hline : Line.read file index text = .ok line) (reading : SourceReading)
    (depth : Nat) (path : SlotPath) :
    Reads grammar reading.progress (reading.give grammar line depth path).progress := by
  unfold give
  dsimp only
  split
  · next progress answer htake => exact reads_take? hline htake
  · exact .refl

theorem reads_place (hline : Line.read file index text = .ok line) (reading : SourceReading)
    (width : Nat) :
    Reads grammar reading.progress (reading.place grammar width line).progress := by
  unfold place
  split
  · exact reads_report _ _
  · dsimp only
    split
    · exact reads_report _ _
    · next depth _ _ =>
      unfold enter
      split
      · next path indentation _ =>
        exact reads_give hline ⟨reading.progress, indentation⟩ depth path
      · exact .refl

theorem reads_readLine (width : Nat) (file : String) (reading : SourceReading) (text : String)
    (index : Nat) :
    Reads grammar reading.progress (reading.readLine grammar width file text index).progress := by
  unfold readLine
  split
  · exact .refl
  · split
    · exact reads_report _ _
    · next line hline =>
      split
      · exact .single (.idle rfl (Nat.le_refl _) (.refl _))
      · exact reads_place hline reading width

end SourceReading

namespace Progress

variable {grammar : Grammar}

/-- Reading the lines of a source is a run. -/
theorem reads_readSource (progress : Progress) (width : Nat) (file : String)
    (lines : List String) :
    Reads grammar progress (progress.readSource grammar width file lines) := by
  have hline (reading : SourceReading) (item : String × Nat) : Reads grammar reading.progress
      (reading.readLine grammar width file item.1 item.2).progress :=
    reading.reads_readLine width file item.1 item.2
  exact reads_foldl SourceReading.progress hline lines.zipIdx ⟨progress, Indentation.start⟩

end Progress

/-! ### Inclusions -/

namespace Including

open Progress

variable {grammar : Grammar} (options : ReadOptions) (files : FileSystem)

theorem reads_readNamed (inclusion : Inclusion) (state : Including) (file : SourcePath) :
    Reads grammar state.progress
      (readNamed grammar options files inclusion state file).progress := by
  unfold readNamed
  dsimp only
  split
  · split
    · exact reads_readSource _ _ _ _
    · exact reads_report _ _
  · exact .refl

theorem reads_process (state : Including) (index : Nat) :
    Reads grammar state.progress (state.process grammar options files index).progress := by
  unfold process
  split
  · exact .refl
  · next inclusion _ =>
    have hprocessed : Reads grammar state.progress { state.progress with
        document.inclusions := state.progress.document.inclusions.set index
          { inclusion with processed := true } } :=
      .single (.idle rfl (Nat.le_refl _) (.refl _))
    dsimp only
    apply hprocessed.trans
    split
    · exact reads_report _ _
    · exact reads_foldl Including.progress (reads_readNamed options files _) _ ⟨_, _⟩

theorem reads_round (state : Including) :
    Reads grammar state.progress (state.round grammar options files).progress :=
  reads_foldl Including.progress (reads_process options files) _ _

theorem reads_resolve (state : Including) :
    Reads grammar state.progress (state.resolve grammar options files).progress := by
  fun_induction resolve grammar options files state with
  | case1 state next hless ih => exact (reads_round options files state).trans ih
  | case2 state next => exact reads_round options files state

end Including

namespace Progress

theorem reads_readIncluding (grammar : Grammar) (options : ReadOptions) (files : FileSystem)
    (file : String) (lines : List String) :
    Reads grammar {} (readIncluding grammar options files file lines) := by
  unfold readIncluding
  dsimp only
  split
  · exact (reads_readSource _ _ _ _).trans (Including.reads_resolve options files ⟨_, _⟩)
  · exact reads_readSource _ _ _ _

/-- The results of reading: lines, lines and the files that they include, or a file and the files
that it includes. -/
inductive IsRead (grammar : Grammar) : Progress → Prop
  | lines (width : Nat) (file : String) (lines : List String) :
      IsRead grammar (({} : Progress).readSource grammar width file lines)
  | including (options : ReadOptions) (files : FileSystem) (file : String)
      (lines : List String) : IsRead grammar (readIncluding grammar options files file lines)
  | named (options : ReadOptions) (files : FileSystem) (file : String) :
      IsRead grammar (readNamed grammar options files file)

theorem IsRead.reads {progress : Progress} (h : progress.IsRead grammar) :
    Reads grammar {} progress := by
  cases h with
  | lines width file lines => exact reads_readSource _ _ _ _
  | including options files file lines => exact reads_readIncluding _ _ _ _ _
  | named options files file =>
    unfold readNamed
    split
    · exact reads_readIncluding _ _ _ _ _
    · exact .single (.idle rfl (Nat.le_refl _) (.add _ _ _ _ _ _))

end Progress

end DecisionLang
