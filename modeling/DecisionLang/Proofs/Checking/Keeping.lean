import DecisionLang.Proofs.Checking.Scoped
import DecisionLang.Proofs.Typing.Valued

/-!
# Variables that are values

A variable gets its type where it is declared, and names take theirs from variables. So whether
anything in scope or in the findings has the type `void` is decided along the run of a check.
`Check.Keeps` says of an action that it brings in nothing of that type, and what its result tells,
unless it logs an error. There is one rule for each way actions are composed.
-/

namespace DecisionLang

/-- All variables in scope are values. -/
def Scopes.Valued (scopes : Scopes) : Prop := ∀ variable_ ∈ scopes.visible, variable_.type ≠ .void

/-- No definition is of the type `void`, and no name stands for something of that type. -/
structure Findings.Valued (findings : Findings) : Prop where
  definitions : ∀ id type, findings.definitions.find? id = some type → type ≠ .void
  resolved : ∀ id found, findings.resolved.find? id = some found → found.type ≠ .void

structure CheckState.Valued (state : CheckState) : Prop where
  scopes : state.scopes.Valued
  findings : state.findings.Valued

namespace Scopes

variable {scopes after : Scopes}

theorem Valued.find? (h : scopes.Valued) {name : String} {found : Variable}
    (hfound : scopes.find? name = some found) : found.type ≠ .void :=
  h found (mem_visible_of_find? hfound)

theorem Valued.enter (h : scopes.Valued) : scopes.enter.Valued := by
  have hvisible : scopes.enter.visible = scopes.visible := by simp [visible, Scopes.enter]
  rwa [Valued, hvisible]

theorem Valued.leave (h : scopes.Valued) : scopes.leave.Valued := by
  obtain ⟨innermost, _ | ⟨scope, outer⟩⟩ := scopes
  · exact h
  · intro variable_ hvariable
    apply h
    simp only [visible, Scopes.leave, List.reverse_cons, List.flatten_append,
      List.mem_append] at hvariable ⊢
    exact .inl (by simpa using hvariable)

theorem Valued.declare? (h : scopes.Valued) {new : Variable} (hnew : new.type ≠ .void)
    (hdeclare : scopes.declare? new = some after) : after.Valued := by
  have hgains : scopes.Gains (fun other => other.type ≠ .void) after := .declare? hdeclare hnew
  obtain ⟨added, rfl, _, hadded⟩ := hgains
  intro variable_ hvariable
  rw [visible, ← List.append_assoc] at hvariable
  rcases List.mem_append.1 hvariable with hold | hmem
  · exact h variable_ hold
  · exact (hadded variable_ hmem).1

end Scopes

namespace CheckState.Valued

theorem start (log : Log) : CheckState.Valued { log } := ⟨nofun, nofun, nofun⟩

variable {state : CheckState}

theorem of_kept (h : state.Valued) {after : CheckState} (hscopes : after.scopes = state.scopes)
    (hfindings : ∀ key, after.findings.SameAt state.findings key) : after.Valued := by
  refine ⟨hscopes ▸ h.scopes, fun id type htype => ?_, fun id found hfound => ?_⟩
  · exact h.findings.definitions id type ((hfindings (.definition, id)).symm.trans htype)
  · exact h.findings.resolved id found ((hfindings (.variable, id)).symm.trans hfound)

end CheckState.Valued

namespace Check

variable {α β : Type} {given : Prop}

/-- Given that something holds, an action keeps variables valued, and its result has a property,
unless an error is logged. -/
structure Keeps (given : Prop) (action : Check α) (P : α → Prop) : Prop where
  continues : ∀ state : CheckState, state.log.Continues (action.run state).2.log
  post : given → ∀ state : CheckState, state.Valued → (action.run state).2.log.hasErrors = false →
    (action.run state).2.Valued ∧ P (action.run state).1

namespace Keeps

variable {action : Check α} {rest : α → Check β} {P Q : α → Prop} {R : β → Prop}

theorem weaken (h : Keeps given action P) (himp : given → ∀ result, P result → Q result) :
    Keeps given action Q :=
  ⟨h.continues, fun hgiven state hstate hlog =>
    (h.post hgiven state hstate hlog).imp_right (himp hgiven _)⟩

theorem absurd (h : Keeps given action fun _ => False) : Keeps given action P :=
  h.weaken fun _ _ => False.elim

theorem of_given {assumed : Prop} (h : Keeps assumed action P) (himp : given → assumed) :
    Keeps given action P :=
  ⟨h.continues, fun hgiven => h.post (himp hgiven)⟩

theorem pure {value : α} (h : given → P value) : Keeps given (Pure.pure value) P :=
  ⟨fun _ => .refl _, fun hgiven _ hstate _ => ⟨hstate, h hgiven⟩⟩

/-- What the result of the first action tells is given to the second one. -/
theorem bind (h : Keeps given action P)
    (hrest : ∀ value, Keeps (given ∧ P value) (rest value) R) : Keeps given (action >>= rest) R := by
  refine ⟨fun state => (h.continues state).trans ((hrest _).continues _), ?_⟩
  intro hgiven state hstate hlog
  have hlog' := ((hrest _).continues (action.run state).2).hasErrors_eq_false hlog
  obtain ⟨hnext, hvalue⟩ := h.post hgiven state hstate hlog'
  exact (hrest _).post ⟨hgiven, hvalue⟩ _ hnext hlog

theorem discard (h : Keeps given action P) :
    Keeps given (Functor.discard action) fun _ => ∃ result, P result :=
  h.bind fun result => .pure fun hgiven => ⟨result, hgiven.2⟩

end Keeps

/-! ### Actions on the state -/

/-- An action that neither records anything nor adds to the scopes. -/
theorem keeps_of_sound (env : TypeEnv) {action action' : Check α} {P Q : α → Prop}
    (h : Sound action [] fun _ => P)
    (hscopes : (Rerun.behind env {}).Repeats (fun _ => False) action action' Q) :
    Keeps given action P := by
  refine ⟨h.continues, fun _ state hstate hlog => ⟨hstate.of_kept ?_ ?_, ?_⟩⟩
  · exact (hscopes.gains state (Rerun.among_behind env {} _)).scopes.eq_of_none fun _ hnew => hnew.1
  · exact fun key => h.frame state key List.not_mem_nil
  · exact h.post state List.nodup_nil hlog _ fun key _ => .refl _ key

theorem keeps_get : Keeps given get fun _ => True :=
  ⟨fun _ => .refl _, fun _ _ hstate _ => ⟨hstate, trivial⟩⟩

theorem keeps_report (fault : Fault) (reference : Reference) :
    Keeps given (report fault reference) fun _ => False :=
  keeps_of_sound ⟨{ declarations := [] }, []⟩ (sound_report fault reference)
    (Rerun.repeats_report fault reference)

theorem keeps_refuse (fault : Fault) (reference : Reference) (value : α) :
    Keeps given (do report fault reference; return value) fun _ => False :=
  (keeps_report fault reference).bind fun _ => .pure And.right

theorem keeps_fail (fault : Fault) (reference : Reference) :
    Keeps given (fail fault reference) fun _ => False :=
  keeps_of_sound ⟨{ declarations := [] }, []⟩ (sound_fail fault reference)
    (Rerun.repeats_fail fault reference)

theorem keeps_reportIf {condition : Prop} [Decidable condition] {fault : Fault}
    {reference : Reference} {next : Unit → Check α} {P : α → Prop}
    (h : Keeps (given ∧ ¬condition) (next ()) P) :
    Keeps given (if condition then do let done ← report fault reference; next done else next ())
      P := by
  by_cases hcondition : condition
  · rw [if_pos hcondition]
    refine (keeps_report fault reference).bind fun _ => h.of_given fun hgiven => hgiven.2.elim
  · rw [if_neg hcondition]
    exact h.of_given fun hgiven => ⟨hgiven, hcondition⟩

theorem keeps_unless {condition : Prop} [Decidable condition] {fault : Fault}
    {reference : Reference} :
    Keeps given (if condition then report fault reference else pure ()) fun _ => ¬condition := by
  split
  · exact (keeps_report _ _).absurd
  · next h => exact .pure fun _ => h

theorem keeps_recordType (id : Nat) (type : Ty) : Keeps given (recordType id type) fun _ => True :=
  ⟨fun _ => .refl _, fun _ _ hstate _ => ⟨⟨hstate.scopes, hstate.findings.1, hstate.findings.2⟩, trivial⟩⟩

theorem keeps_recordVariable (id : Nat) {found : ResolvedVariable}
    (h : given → found.type ≠ .void) : Keeps given (recordVariable id found) fun _ => True := by
  refine ⟨fun _ => .refl _, fun hgiven state hstate _ => ⟨⟨hstate.scopes, hstate.findings.1, ?_⟩, trivial⟩⟩
  intro other last hlast
  rw [show ((recordVariable id found).run state).2.findings.resolved =
    state.findings.resolved.record id found from rfl, Recorded.find?_record] at hlast
  split at hlast
  · cases hlast
    exact h hgiven
  · exact hstate.findings.resolved other last hlast

theorem keeps_recordDefinition (id : Nat) {type : Ty} (h : given → type ≠ .void) :
    Keeps given (recordDefinition id type) fun _ => True := by
  refine ⟨fun _ => .refl _, fun hgiven state hstate _ => ⟨⟨hstate.scopes, ?_, hstate.findings.2⟩, trivial⟩⟩
  intro other last hlast
  rw [show ((recordDefinition id type).run state).2.findings.definitions =
    state.findings.definitions.record id type from rfl, Recorded.find?_record] at hlast
  split at hlast
  · cases hlast
    exact h hgiven
  · exact hstate.findings.definitions other last hlast

theorem keeps_declare {new : Variable} (h : given → new.type ≠ .void) :
    Keeps given (declare new) fun _ => True := by
  have hrefused : Keeps given
      (do report (.redeclaredVariable new.name) new.reference; return false) fun _ => False :=
    keeps_refuse _ _ _
  refine ⟨(sound_declare new).continues, fun hgiven state hstate hlog => ⟨?_, trivial⟩⟩
  rw [run_declare] at hlog ⊢
  cases hdeclare : state.scopes.declare? new with
  | some scopes => exact ⟨hstate.scopes.declare? (h hgiven) hdeclare, hstate.findings⟩
  | none =>
    rw [hdeclare] at hlog
    exact (hrefused.post hgiven state hstate hlog).2.elim

theorem keeps_resolve? (env : TypeEnv) (path : NamePath) :
    Keeps given (resolve? env path) fun found? => ∀ found ∈ found?, found.type ≠ .void := by
  refine ⟨fun _ => .refl _, fun _ state hstate _ => ⟨hstate, fun found hfound => ?_⟩⟩
  obtain ⟨root, hroot, hfound⟩ := Option.bind_eq_some_iff.1 (Option.mem_def.1 hfound)
  obtain ⟨type, htype, hfound⟩ := Option.bind_eq_some_iff.1 hfound
  cases hfound
  exact TypeEnv.follow?_ne_void (hstate.scopes.find? hroot) htype

theorem keeps_inScope {action : Check α} {P : α → Prop} (h : Keeps given action P) :
    Keeps given (inScope action) P := by
  refine ⟨fun state => h.continues { state with scopes := state.scopes.enter }, ?_⟩
  intro hgiven state hstate hlog
  obtain ⟨hinner, hresult⟩ := h.post hgiven { state with scopes := state.scopes.enter }
    ⟨hstate.scopes.enter, hstate.findings⟩ hlog
  exact ⟨⟨hinner.scopes.leave, hinner.findings⟩, hresult⟩

theorem keeps_ownedBy {action : Check α} {P : α → Prop} (h : Keeps given action P)
    (owner : String) : Keeps given (ownedBy owner action) P := by
  refine ⟨fun state => ?_, fun hgiven state hstate hlog => ?_⟩
  · exact ⟨(h.continues { state with log.owner := some owner }).entries, rfl⟩
  · obtain ⟨hinner, hresult⟩ := h.post hgiven { state with log.owner := some owner }
      ⟨hstate.scopes, hstate.findings⟩ hlog
    exact ⟨⟨hinner.scopes, hinner.findings⟩, hresult⟩

/-! ### Actions on lists -/

theorem keeps_forM {items : List α} {f : α → Check PUnit} {P : α → Prop}
    (h : ∀ item ∈ items, Keeps given (f item) fun _ => P item) :
    Keeps given (items.forM f) fun _ => ∀ item ∈ items, P item := by
  induction items with
  | nil => exact .pure fun _ => nofun
  | cons item items ih =>
    obtain ⟨hitem, hitems⟩ := List.forall_mem_cons.1 h
    refine hitem.bind fun _ => ((ih hitems).of_given And.left).weaken fun hgiven _ hrest => ?_
    exact List.forall_mem_cons.2 ⟨hgiven.2, hrest⟩

theorem keeps_mapM {items : List α} {f : α → Check β} {P : β → Prop}
    (h : ∀ item ∈ items, Keeps given (f item) P) :
    Keeps given (items.mapM f) fun results =>
      results.length = items.length ∧ ∀ result ∈ results, P result := by
  induction items with
  | nil => exact .pure fun _ => ⟨rfl, nofun⟩
  | cons item items ih =>
    obtain ⟨hitem, hitems⟩ := List.forall_mem_cons.1 h
    rw [List.mapM_cons]
    refine hitem.bind fun result => ((ih hitems).of_given And.left).bind fun results => .pure ?_
    rintro ⟨⟨_, hresult⟩, hlength, hresults⟩
    exact ⟨congrArg Nat.succ hlength, List.forall_mem_cons.2 ⟨hresult, hresults⟩⟩

theorem keeps_forM_option {item? : Option α} {f : α → Check PUnit} {P : α → Prop}
    (h : ∀ item ∈ item?, Keeps given (f item) fun _ => P item) :
    Keeps given (item?.forM f) fun _ => ∀ item ∈ item?, P item := by
  cases item? with
  | none => exact .pure fun _ => nofun
  | some item =>
    refine (h item rfl).weaken fun _ _ hpost other hother => ?_
    cases hother
    exact hpost

end Check

end DecisionLang
