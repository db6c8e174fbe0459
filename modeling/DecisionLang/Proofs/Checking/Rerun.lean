import DecisionLang.Checking.State
import DecisionLang.Proofs.Log
import DecisionLang.Proofs.Typing.Agreement

/-!
# Checking again

The same thing can be checked twice: in another document, or after other checks. A `Rerun` is what
the two runs have in common: the documents agree about certain names, and what was logged and found
out before the second run has nothing to do with it. `Rerun.Repeats` says of two actions that the
second one does in its circumstances what the first one does in its own. It also says what a run
leaves of the state: the innermost scope has gained variables under names that it did not have,
and entries were logged on behalf of the current owner. There is one rule for each way actions are
composed.
-/

namespace DecisionLang

/-! ### Variables that come into scope -/

namespace Scopes

/-- Scopes of which the innermost one has gained variables, under names that it did not have. -/
def Gains (allowed : Variable → Prop) (before after : Scopes) : Prop :=
  ∃ added : Scope, after = ⟨before.innermost ++ added, before.outer⟩ ∧
    (added.map Variable.name).Nodup ∧
    ∀ new ∈ added, allowed new ∧ before.innermost.find? new.name = none

/-- The variables in scope have types that belong to declarations of certain names. -/
def Among (named : String → Prop) (scopes : Scopes) : Prop :=
  ∀ variable_ ∈ scopes.visible, variable_.type.Among named

variable {allowed : Variable → Prop} {named : String → Prop} {before middle after scopes : Scopes}

theorem mem_visible_of_find? {name : String} {found : Variable}
    (h : scopes.find? name = some found) : found ∈ scopes.visible := by
  obtain ⟨scope, hscope, hfound⟩ := List.exists_of_findSome?_eq_some h
  have hmem : found ∈ scope := List.mem_of_find?_eq_some hfound
  rcases List.mem_cons.1 hscope with rfl | hscope
  · exact List.mem_append_right _ hmem
  · exact List.mem_append_left _ (List.mem_flatten.2 ⟨scope, List.mem_reverse.2 hscope, hmem⟩)

theorem Among.find? (h : scopes.Among named) {name : String} {found : Variable}
    (hfound : scopes.find? name = some found) : found.type.Among named :=
  h found (mem_visible_of_find? hfound)

theorem Among.enter (h : scopes.Among named) : scopes.enter.Among named := by
  have hvisible : scopes.enter.visible = scopes.visible := by simp [visible, Scopes.enter]
  rwa [Among, hvisible]

namespace Gains

theorem refl (scopes : Scopes) : scopes.Gains allowed scopes := ⟨[], by simp, by simp, nofun⟩

theorem trans (h : before.Gains allowed middle) (h' : middle.Gains allowed after) :
    before.Gains allowed after := by
  obtain ⟨added, rfl, hnodup, hadded⟩ := h
  obtain ⟨added', rfl, hnodup', hadded'⟩ := h'
  have hfresh (new : Variable) (hnew : new ∈ added') :
      before.innermost.find? new.name = none ∧ added.find? new.name = none := by
    have hnone := (hadded' new hnew).2
    unfold Scope.find? at hnone ⊢
    rwa [List.find?_append, Option.or_eq_none_iff] at hnone
  refine ⟨added ++ added', by simp, ?_, List.forall_mem_append.2 ⟨hadded, fun new hnew => ?_⟩⟩
  · rw [List.map_append, List.nodup_append]
    refine ⟨hnodup, hnodup', ?_⟩
    rintro name hname _ hname' rfl
    obtain ⟨old, hold, heq⟩ := List.mem_map.1 hname
    obtain ⟨new, hnew, rfl⟩ := List.mem_map.1 hname'
    exact List.find?_eq_none.1 (hfresh new hnew).2 old hold (beq_iff_eq.2 heq)
  · exact ⟨(hadded' new hnew).1, (hfresh new hnew).1⟩

theorem mono {wider : Variable → Prop} (h : before.Gains allowed after)
    (himp : ∀ new, allowed new → wider new) : before.Gains wider after := by
  obtain ⟨added, rfl, hnodup, hadded⟩ := h
  exact ⟨added, rfl, hnodup, fun new hnew => (hadded new hnew).imp_left (himp new)⟩

theorem declare? {new : Variable} (h : before.declare? new = some after) (hnew : allowed new) :
    before.Gains allowed after := by
  unfold Scopes.declare? at h
  split at h
  · cases h
  · next hfresh =>
    cases h
    refine ⟨[new], rfl, List.nodup_singleton _, List.forall_mem_singleton.2 ⟨hnew, ?_⟩⟩
    simpa using hfresh

theorem leave (h : before.enter.Gains allowed after) : after.leave = before := by
  obtain ⟨added, rfl, _⟩ := h
  rfl

theorem eq_of_none (h : before.Gains allowed after) (hnone : ∀ new, ¬allowed new) :
    after = before := by
  obtain ⟨added, rfl, _, hadded⟩ := h
  have hempty : added = [] := List.eq_nil_iff_forall_not_mem.2 fun new hnew =>
    hnone new (hadded new hnew).1
  rw [hempty, List.append_nil]

theorem among (h : before.Gains allowed after) (hbefore : before.Among named)
    (hallowed : ∀ new, allowed new → new.type.Among named) : after.Among named := by
  obtain ⟨added, rfl, _, hadded⟩ := h
  intro variable_ hvariable
  rw [visible, ← List.append_assoc] at hvariable
  rcases List.mem_append.1 hvariable with hold | hnew
  · exact hbefore variable_ hold
  · exact hallowed variable_ (hadded variable_ hnew).1

end Gains

end Scopes

/-! ### What one run leaves of a state -/

/-- A state that a check has left: variables have come into the innermost scope, and entries have
been logged on behalf of the owner. -/
structure CheckState.Gains (allowed : Variable → Prop) (before after : CheckState) : Prop where
  scopes : before.scopes.Gains allowed after.scopes
  owner : after.log.owner = before.log.owner
  entries : ∃ new, after.log.entries = before.log.entries ++ new ∧
    ∀ entry ∈ new, entry.owner = before.log.owner

namespace CheckState.Gains

variable {allowed : Variable → Prop} {before middle after : CheckState}

theorem of_kept (hscopes : after.scopes = before.scopes) (hlog : after.log = before.log) :
    before.Gains allowed after := by
  refine ⟨?_, by rw [hlog], [], by simp [hlog], nofun⟩
  rw [hscopes]
  exact .refl _

theorem refl (state : CheckState) : state.Gains allowed state := of_kept rfl rfl

theorem trans (h : before.Gains allowed middle) (h' : middle.Gains allowed after) :
    before.Gains allowed after := by
  obtain ⟨new, hentries, hnew⟩ := h.entries
  obtain ⟨new', hentries', hnew'⟩ := h'.entries
  refine ⟨h.scopes.trans h'.scopes, h'.owner.trans h.owner, new ++ new', ?_, ?_⟩
  · rw [hentries', hentries, List.append_assoc]
  · rw [h.owner] at hnew'
    exact List.forall_mem_append.2 ⟨hnew, hnew'⟩

end CheckState.Gains

/-! ### What other runs have left -/

namespace Recorded

variable {α : Type} {past : Recorded α} {id : Nat}

theorem find?_append (past recorded : Recorded α) (id : Nat) :
    find? (past ++ recorded) id = (past.find? id).or (recorded.find? id) := by
  unfold find?
  rw [List.find?_append, Option.map_or]

/-- A number that was not recorded before gets its place behind all that were. -/
theorem record_append (h : past.find? id = none) (value : α) (recorded : Recorded α) :
    record id value (past ++ recorded) = past ++ record id value recorded := by
  induction past with
  | nil => rfl
  | cons item past ih =>
    have hne : item.1 ≠ id := by
      rintro rfl
      simp [find?] at h
    rw [List.cons_append, record, if_neg hne, ih, List.cons_append]
    simpa [find?, List.find?_cons, hne] using h

end Recorded

namespace Findings

/-- Nothing has been found out under a number. -/
structure Lacks (findings : Findings) (id : Nat) : Prop where
  types : findings.types.find? id = none
  resolved : findings.resolved.find? id = none
  definitions : findings.definitions.find? id = none

theorem lacks_empty (id : Nat) : ({} : Findings).Lacks id := ⟨rfl, rfl, rfl⟩

/-- Findings behind those that were there before. -/
def after (findings past : Findings) : Findings :=
  ⟨past.types ++ findings.types, past.resolved ++ findings.resolved,
    past.definitions ++ findings.definitions⟩

end Findings

/-- What other checks have logged and found out. -/
structure Past where
  entries : List LogEntry := []
  findings : Findings := {}

def CheckState.after (state : CheckState) (past : Past) : CheckState :=
  { state with
    log.entries := past.entries ++ state.log.entries
    findings := state.findings.after past.findings }

/-! ### Two runs -/

/-- A second run of a check: in a document that agrees about certain names, after other checks. -/
structure Rerun where
  first : TypeEnv
  second : TypeEnv
  named : String → Prop
  agrees : first.Agrees second named
  past : Past

namespace Rerun

def behind (env : TypeEnv) (past : Past) : Rerun := ⟨env, env, fun _ => True, .refl env, past⟩

theorem among_behind (env : TypeEnv) (past : Past) (scopes : Scopes) :
    scopes.Among (behind env past).named := fun variable_ _ => variable_.type.among_true

/-- A node refers to names that the documents agree about, and nothing was found out about it or
anything below it. -/
def Fits (again : Rerun) (node : Node) : Prop :=
  node.Everywhere fun item => (∀ name ∈ item.referredName?, again.named name) ∧
    ∀ id ∈ item.number?, again.past.findings.Lacks id

theorem fits_behind (env : TypeEnv) {past : Past} {node : Node}
    (h : ∀ id ∈ node.numbers, past.findings.Lacks id) : (behind env past).Fits node :=
  fun item hitem => ⟨fun _ _ => trivial, fun id hid =>
    h id (List.mem_filterMap.2 ⟨item, hitem, hid⟩)⟩

/-- The second action does in its circumstances what the first one does in its own. The variables
that come into scope have certain names, and the result has a property. -/
structure Repeats {α : Type} (again : Rerun) (names : String → Prop) (action action' : Check α)
    (P : α → Prop) : Prop where
  run : ∀ state : CheckState, state.scopes.Among again.named →
    action'.run (state.after again.past) =
      ((action.run state).1, (action.run state).2.after again.past)
  gains : ∀ state : CheckState, state.scopes.Among again.named →
    state.Gains (fun new => names new.name ∧ new.type.Among again.named) (action.run state).2
  result : ∀ state : CheckState, state.scopes.Among again.named → P (action.run state).1

/-- A type that was found belongs to a declaration that the documents agree about. -/
def Typed (again : Rerun) (type? : Option Ty) : Prop := ∀ type ∈ type?, type.Among again.named

section

variable {again : Rerun} {names : String → Prop} {α β : Type} {action action' : Check α}
  {rest rest' : α → Check β} {P : α → Prop} {Q : β → Prop}

theorem typed_none : again.Typed none := nofun

theorem typed_some {type : Ty} (h : type.Among again.named) : again.Typed (some type) :=
  fun _ heq => Option.some.inj heq ▸ h

namespace Repeats

theorem among (h : again.Repeats names action action' P) {state : CheckState}
    (hstate : state.scopes.Among again.named) : (action.run state).2.scopes.Among again.named :=
  (h.gains state hstate).scopes.among hstate fun _ hnew => hnew.2

theorem pure {value : α} (h : P value) :
    again.Repeats names (Pure.pure value) (Pure.pure value) P :=
  ⟨fun _ _ => rfl, fun _ _ => .refl _, fun _ _ => h⟩

theorem bind (h : again.Repeats names action action' P)
    (hrest : ∀ value, P value → again.Repeats names (rest value) (rest' value) Q) :
    again.Repeats names (action >>= rest) (action' >>= rest') Q := by
  refine ⟨fun state hstate => ?_, fun state hstate => ?_, fun state hstate => ?_⟩
  · have hnext := (hrest _ (h.result state hstate)).run _ (h.among hstate)
    rw [StateT.run_bind, StateT.run_bind, h.run state hstate]
    exact hnext
  · exact (h.gains state hstate).trans ((hrest _ (h.result state hstate)).gains _ (h.among hstate))
  · exact (hrest _ (h.result state hstate)).result _ (h.among hstate)

theorem discard (h : again.Repeats names action action' P) :
    again.Repeats names (Functor.discard action) (Functor.discard action') fun _ => True :=
  h.bind fun _ _ => .pure trivial

/-- What is done next may depend on the state, as far as it is the same in both runs. -/
theorem bindGet {rest rest' : CheckState → Check β}
    (h : ∀ state : CheckState, state.scopes.Among again.named →
      again.Repeats names (rest state) (rest' (state.after again.past)) Q) :
    again.Repeats names (get >>= rest) (get >>= rest') Q :=
  ⟨fun state hstate => (h state hstate).run state hstate,
    fun state hstate => (h state hstate).gains state hstate,
    fun state hstate => (h state hstate).result state hstate⟩

end Repeats

/-! ### Actions on the state -/

theorem repeats_of_kept {action action' : Check α}
    (hrun : ∀ state : CheckState, action'.run (state.after again.past) =
      ((action.run state).1, (action.run state).2.after again.past))
    (hscopes : ∀ state : CheckState, (action.run state).2.scopes = state.scopes)
    (hlog : ∀ state : CheckState, (action.run state).2.log = state.log)
    (hresult : ∀ state : CheckState, P (action.run state).1) :
    again.Repeats names action action' P :=
  ⟨fun state _ => hrun state, fun state _ => .of_kept (hscopes state) (hlog state),
    fun state _ => hresult state⟩

open Check

theorem repeats_log {action : Check Unit} (entry : Option String → LogEntry)
    (hrun : ∀ state : CheckState, action.run state = ((),
      { state with log.entries := state.log.entries ++ [entry state.log.owner] }))
    (howner : ∀ owner, (entry owner).owner = owner) :
    again.Repeats names action action fun _ => True := by
  refine ⟨fun state _ => ?_, fun state _ => ?_, fun _ _ => trivial⟩
  · rw [hrun, hrun]
    simp [CheckState.after]
  · rw [hrun]
    exact ⟨.refl _, rfl, [_], rfl, List.forall_mem_singleton.2 (howner _)⟩

theorem repeats_report (fault : Fault) (reference : Reference) :
    again.Repeats names (report fault reference) (report fault reference) fun _ => True :=
  repeats_log (fault.located reference).entry (fun _ => rfl) fun _ => rfl

theorem repeats_fail (fault : Fault) (reference : Reference) :
    again.Repeats names (fail fault reference) (fail fault reference) fun _ => True :=
  repeats_log (fun owner => ⟨.error, some reference, fault.message, owner, none, []⟩)
    (fun _ => rfl) fun _ => rfl

theorem repeats_refuse (fault : Fault) (reference : Reference) {value : α} (h : P value) :
    again.Repeats names (do report fault reference; return value)
      (do report fault reference; return value) P :=
  (repeats_report fault reference).bind fun _ _ => .pure h

theorem repeats_reportIf {condition : Prop} [Decidable condition] {fault : Fault}
    {reference : Reference} {next next' : Unit → Check α}
    (h : again.Repeats names (next ()) (next' ()) P) :
    again.Repeats names
      (if condition then do let done ← report fault reference; next done else next ())
      (if condition then do let done ← report fault reference; next' done else next' ()) P := by
  split
  · exact (repeats_report fault reference).bind fun _ _ => h
  · exact h

theorem repeats_inScope (inner : String → Prop) (h : again.Repeats inner action action' P) :
    again.Repeats names (inScope action) (inScope action') P := by
  have hentered (state : CheckState) (hstate : state.scopes.Among again.named) :
      ({ state with scopes := state.scopes.enter } : CheckState).scopes.Among again.named :=
    hstate.enter
  refine ⟨fun state hstate => ?_, fun state hstate => ?_, fun state hstate => ?_⟩
  · have hrun := h.run { state with scopes := state.scopes.enter } (hentered state hstate)
    exact congrArg (fun done : α × CheckState =>
      (done.1, { done.2 with scopes := done.2.scopes.leave })) hrun
  · have hgains := h.gains { state with scopes := state.scopes.enter } (hentered state hstate)
    refine ⟨?_, hgains.owner, hgains.entries⟩
    have hleave : ((inScope action).run state).2.scopes = state.scopes := hgains.scopes.leave
    rw [hleave]
    exact .refl _
  · exact h.result { state with scopes := state.scopes.enter } (hentered state hstate)

theorem repeats_recordType {id : Nat} (hid : again.past.findings.Lacks id) (type : Ty) :
    again.Repeats names (recordType id type) (recordType id type) fun _ => True := by
  refine repeats_of_kept (fun state => ?_) (fun _ => rfl) (fun _ => rfl) fun _ => trivial
  have hrecord := Recorded.record_append hid.types type state.findings.types
  exact congrArg (fun types => ((), { state.after again.past with findings.types := types }))
    hrecord

theorem repeats_recordVariable {id : Nat} (hid : again.past.findings.Lacks id)
    (found : ResolvedVariable) :
    again.Repeats names (recordVariable id found) (recordVariable id found) fun _ => True := by
  refine repeats_of_kept (fun state => ?_) (fun _ => rfl) (fun _ => rfl) fun _ => trivial
  have hrecord := Recorded.record_append hid.resolved found state.findings.resolved
  exact congrArg (fun resolved =>
    ((), { state.after again.past with findings.resolved := resolved })) hrecord

theorem repeats_recordDefinition {id : Nat} (hid : again.past.findings.Lacks id) (type : Ty) :
    again.Repeats names (recordDefinition id type) (recordDefinition id type) fun _ => True := by
  refine repeats_of_kept (fun state => ?_) (fun _ => rfl) (fun _ => rfl) fun _ => trivial
  have hrecord := Recorded.record_append hid.definitions type state.findings.definitions
  exact congrArg (fun definitions =>
    ((), { state.after again.past with findings.definitions := definitions })) hrecord

theorem repeats_declare {new : Variable} (hname : names new.name)
    (htype : new.type.Among again.named) :
    again.Repeats names (declare new) (declare new) fun _ => True := by
  have hrefused : again.Repeats names
      (do report (.redeclaredVariable new.name) new.reference; return false)
      (do report (.redeclaredVariable new.name) new.reference; return false) fun _ => True :=
    repeats_refuse _ _ trivial
  refine ⟨fun state hstate => ?_, fun state hstate => ?_, fun _ _ => trivial⟩
  · rw [run_declare, run_declare, show (state.after again.past).scopes = state.scopes from rfl]
    cases state.scopes.declare? new with
    | some scopes => rfl
    | none => exact hrefused.run state hstate
  · rw [run_declare]
    cases hdeclare : state.scopes.declare? new with
    | some scopes =>
      exact ⟨.declare? hdeclare ⟨hname, htype⟩, rfl, [], by simp, List.forall_mem_nil _⟩
    | none => exact hrefused.gains state hstate

theorem repeats_resolve? (path : NamePath) :
    again.Repeats names (resolve? again.first path) (resolve? again.second path)
      fun found? => ∀ found ∈ found?, found.type.Among again.named := by
  refine .bindGet fun state hstate => ?_
  let found? (env : TypeEnv) : Option ResolvedVariable :=
    (state.scopes.find? path.root).bind fun root =>
      (env.follow? root.type path.members).bind fun type => some ⟨path, root.origin, type⟩
  have hsame : found? again.second = found? again.first ∧
      ∀ found ∈ found? again.first, found.type.Among again.named := by
    unfold found?
    cases hroot : state.scopes.find? path.root with
    | none => exact ⟨rfl, by simp⟩
    | some root =>
      obtain ⟨hsame, hamong⟩ := again.agrees.follow? (hstate.find? hroot) path.members
      rw [Option.bind_some, Option.bind_some, hsame]
      refine ⟨rfl, fun found hfound => ?_⟩
      obtain ⟨type, htype, hfound⟩ := Option.bind_eq_some_iff.1 hfound
      cases hfound
      exact hamong type htype
  change again.Repeats names (pure (found? again.first)) (pure (found? again.second)) _
  rw [hsame.1]
  exact .pure hsame.2

theorem repeats_expectAssignable {wanted offered : Ty} (hwanted : wanted.Among again.named)
    (hoffered : offered.Among again.named) (reference : Reference) :
    again.Repeats names (expectAssignable again.first wanted offered reference)
      (expectAssignable again.second wanted offered reference) fun _ => True := by
  unfold expectAssignable
  rw [again.agrees.assignable hwanted hoffered]
  split
  · exact .pure trivial
  · exact repeats_report _ _

/-- What an action logs on behalf of another owner is not logged on behalf of the current one, so
nothing is said about what it leaves. -/
theorem run_ownedBy (h : again.Repeats names action action' P) (owner : String)
    (state : CheckState) (hstate : state.scopes.Among again.named) :
    (ownedBy owner action').run (state.after again.past) =
      (((ownedBy owner action).run state).1,
        ((ownedBy owner action).run state).2.after again.past) := by
  have hrun := h.run { state with log.owner := some owner } hstate
  exact congrArg (fun done : α × CheckState =>
    (done.1, { done.2 with log.owner := state.log.owner })) hrun

/-! ### Actions on lists -/

theorem repeats_forM {items : List α} {f f' : α → Check PUnit}
    (h : ∀ item ∈ items, again.Repeats names (f item) (f' item) fun _ => True) :
    again.Repeats names (items.forM f) (items.forM f') fun _ => True := by
  induction items with
  | nil => exact .pure trivial
  | cons item items ih =>
    obtain ⟨hitem, hitems⟩ := List.forall_mem_cons.1 h
    exact hitem.bind fun _ _ => ih hitems

theorem repeats_mapM {items : List α} {f f' : α → Check β}
    (h : ∀ item ∈ items, again.Repeats names (f item) (f' item) Q) :
    again.Repeats names (items.mapM f) (items.mapM f')
      fun results => ∀ result ∈ results, Q result := by
  induction items with
  | nil => exact .pure nofun
  | cons item items ih =>
    obtain ⟨hitem, hitems⟩ := List.forall_mem_cons.1 h
    rw [List.mapM_cons, List.mapM_cons]
    refine hitem.bind fun result hresult => (ih hitems).bind fun results hresults => ?_
    exact .pure (List.forall_mem_cons.2 ⟨hresult, hresults⟩)

theorem repeats_forM_option {item? : Option α} {f f' : α → Check PUnit}
    (h : ∀ item ∈ item?, again.Repeats names (f item) (f' item) fun _ => True) :
    again.Repeats names (item?.forM f) (item?.forM f') fun _ => True := by
  cases item? with
  | none => exact .pure trivial
  | some item => exact h item rfl

end

end Rerun

end DecisionLang
