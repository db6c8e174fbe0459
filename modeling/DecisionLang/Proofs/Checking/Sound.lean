import DecisionLang.Checking.State
import DecisionLang.Proofs.Log
import Mathlib.Data.List.Nodup
import Mathlib.Data.List.Perm.Subperm

/-!
# What a check leaves behind

A check that logs no error has found out what it was meant to find out, and no later check may
undo that. `Check.Sound` says both at once: an action changes findings only under its own keys, and
if no error is logged then its postcondition holds for all findings that have what it left under
these keys. Keys of actions that follow each other are put together, one rule for each way actions
are composed, so that actions with keys of their own never have to be compared.
-/

namespace DecisionLang

/-- What is recorded under the number of an expression or definition. -/
inductive FindingKind where
  | type | variable | definition
  deriving DecidableEq

abbrev FindingKey := FindingKind × Nat

/-- Keys of everything that can be recorded under a number. -/
def FindingKey.all (id : Nat) : List FindingKey :=
  [(.type, id), (.variable, id), (.definition, id)]

/-- The same is recorded under a key. -/
def Findings.SameAt (findings other : Findings) : FindingKey → Prop
  | (.type, id) => findings.types.find? id = other.types.find? id
  | (.variable, id) => findings.resolved.find? id = other.resolved.find? id
  | (.definition, id) => findings.definitions.find? id = other.definitions.find? id

namespace Findings.SameAt

variable {findings other last : Findings} {key : FindingKey}

theorem refl (findings : Findings) (key : FindingKey) : findings.SameAt findings key := by
  obtain ⟨_ | _ | _, id⟩ := key <;> rfl

theorem trans (h : findings.SameAt other key) (h' : other.SameAt last key) :
    findings.SameAt last key := by
  obtain ⟨_ | _ | _, id⟩ := key <;> exact Eq.trans h h'

end Findings.SameAt

namespace Check

variable {α β : Type}

/-- An action that changes findings only under its keys, and of which the postcondition holds
unless an error is logged. -/
structure Sound (action : Check α) (keys : List FindingKey) (Post : Findings → α → Prop) :
    Prop where
  continues : ∀ state : CheckState, state.log.Continues (action.run state).2.log
  frame : ∀ state : CheckState, ∀ key ∉ keys,
    (action.run state).2.findings.SameAt state.findings key
  post : ∀ state : CheckState, keys.Nodup → (action.run state).2.log.hasErrors = false →
    ∀ final : Findings, (∀ key ∈ keys, final.SameAt (action.run state).2.findings key) →
      Post final (action.run state).1

namespace Sound

variable {action : Check α} {rest : α → Check β} {keys keys' : List FindingKey}
  {P : Findings → α → Prop} {Q : Findings → β → Prop}

theorem mono {R : Findings → α → Prop} (h : Sound action keys P) (hkeys : keys.Subperm keys')
    (hpost : ∀ final result, P final result → R final result) : Sound action keys' R := by
  refine ⟨h.continues, ?_, ?_⟩
  · intro state key hkey
    exact h.frame state key fun hmem => hkey (hkeys.subset hmem)
  · intro state hnodup hlog final hfinal
    have hnodup' : keys.Nodup := by
      obtain ⟨keys'', hperm, hsublist⟩ := hkeys
      exact hperm.nodup_iff.1 (hnodup.sublist hsublist)
    exact hpost _ _ (h.post state hnodup' hlog final fun key hkey =>
      hfinal key (hkeys.subset hkey))

theorem weaken {R : Findings → α → Prop} (h : Sound action keys P)
    (hpost : ∀ final result, P final result → R final result) : Sound action keys R :=
  h.mono (List.Subperm.refl _) hpost

theorem absurd (h : Sound action keys fun _ _ => False) : Sound action keys P :=
  h.weaken fun _ _ hfalse => hfalse.elim

theorem pure {value : α} (h : ∀ final, P final value) :
    Sound (Pure.pure value) [] P :=
  ⟨fun _ => .refl _, fun _ _ _ => .refl _ _, fun _ _ _ final _ => h final⟩

/-- What the first action found out is still there after the second one, because their keys
differ. -/
theorem bind (h : Sound action keys P)
    (hrest : ∀ value, Sound (rest value) keys' fun final result => P final value → Q final result) :
    Sound (action >>= rest) (keys ++ keys') Q := by
  refine ⟨?_, ?_, ?_⟩
  · intro state
    exact (h.continues state).trans ((hrest _).continues _)
  · intro state key hkey
    obtain ⟨hfirst, hsecond⟩ := not_or.1 (mt List.mem_append.2 hkey)
    exact ((hrest _).frame _ key hsecond).trans (h.frame state key hfirst)
  · intro state hnodup hlog final hfinal
    obtain ⟨hnodup₁, hnodup₂, hdisjoint⟩ := List.nodup_append.1 hnodup
    have hlog' := ((hrest _).continues (action.run state).2).hasErrors_eq_false hlog
    have hsecond := (hrest _).post _ hnodup₂ hlog final fun key hkey =>
      hfinal key (List.mem_append_right keys hkey)
    refine hsecond (h.post state hnodup₁ hlog' final fun key hkey => ?_)
    have hunchanged := (hrest (action.run state).1).frame (action.run state).2 key
      fun hmem => hdisjoint key hkey key hmem rfl
    exact (hfinal key (List.mem_append_left keys' hkey)).trans hunchanged

theorem bindRest (h : Sound action keys P)
    (hrest : ∀ value, Sound (rest value) [] fun final result => P final value → Q final result) :
    Sound (action >>= rest) keys Q := by
  have hbind := h.bind hrest
  rwa [List.append_nil] at hbind

theorem discard (h : Sound action keys P) :
    Sound (Functor.discard action) keys fun final _ => ∃ result, P final result :=
  h.bindRest fun result => .pure fun _ hresult => ⟨result, hresult⟩

end Sound

/-! ### Actions on the state -/

theorem sound_of_kept {action : Check α} {P : α → Prop}
    (hlog : ∀ state : CheckState, (action.run state).2.log = state.log)
    (hfindings : ∀ state : CheckState, (action.run state).2.findings = state.findings)
    (hresult : ∀ state : CheckState, P (action.run state).1) :
    Sound action [] fun _ => P := by
  refine ⟨?_, ?_, ?_⟩
  · intro state
    rw [hlog state]
    exact .refl _
  · intro state key _
    rw [hfindings state]
    exact .refl _ _
  · exact fun state _ _ _ _ => hresult state

theorem sound_get : Sound get [] fun _ _ => True :=
  sound_of_kept (fun _ => rfl) (fun _ => rfl) fun _ => trivial

theorem sound_report (fault : Fault) (reference : Reference) :
    Sound (report fault reference) [] fun _ _ => False := by
  refine ⟨fun state => .report _ _, fun _ _ _ => .refl _ _, ?_⟩
  intro state _ hlog
  rw [show ((report fault reference).run state).2.log = state.log.report (fault.located reference)
    from rfl, Log.hasErrors_report] at hlog
  cases hlog

theorem sound_refuse (fault : Fault) (reference : Reference) (value : α) :
    Sound (do report fault reference; return value) [] fun _ _ => False :=
  (sound_report fault reference).bindRest fun _ => .pure fun _ h => h

theorem sound_fail (fault : Fault) (reference : Reference) :
    Sound (fail fault reference) [] fun _ _ => False := by
  refine ⟨fun state => .add _ _ _ _ _ _, fun _ _ _ => .refl _ _, ?_⟩
  intro state _ hlog
  simp [fail, Log.fail, Log.add, Log.hasErrors, LogEntry.isError, modify, modifyGet,
    MonadStateOf.modifyGet, StateT.modifyGet, StateT.run, Pure.pure] at hlog

theorem sound_recordType (id : Nat) (type : Ty) :
    Sound (recordType id type) [(.type, id)] fun final _ => final.types.find? id = some type := by
  refine ⟨fun _ => .refl _, ?_, ?_⟩
  · rintro state ⟨_ | _ | _, other⟩ hkey
    · refine (Recorded.find?_record state.findings.types id other type).trans (if_neg ?_)
      rintro rfl
      exact hkey List.mem_cons_self
    · rfl
    · rfl
  · intro state _ _ final hfinal
    apply Eq.trans (hfinal (.type, id) List.mem_cons_self)
    exact (Recorded.find?_record state.findings.types id id type).trans (if_pos rfl)

theorem sound_recordVariable (id : Nat) (resolved : ResolvedVariable) :
    Sound (recordVariable id resolved) [(.variable, id)] fun final _ =>
      final.resolved.find? id = some resolved := by
  refine ⟨fun _ => .refl _, ?_, ?_⟩
  · rintro state ⟨_ | _ | _, other⟩ hkey
    · rfl
    · refine (Recorded.find?_record state.findings.resolved id other resolved).trans (if_neg ?_)
      rintro rfl
      exact hkey List.mem_cons_self
    · rfl
  · intro state _ _ final hfinal
    apply Eq.trans (hfinal (.variable, id) List.mem_cons_self)
    exact (Recorded.find?_record state.findings.resolved id id resolved).trans (if_pos rfl)

theorem sound_recordDefinition (id : Nat) (type : Ty) :
    Sound (recordDefinition id type) [(.definition, id)] fun final _ =>
      final.definitions.find? id = some type := by
  refine ⟨fun _ => .refl _, ?_, ?_⟩
  · rintro state ⟨_ | _ | _, other⟩ hkey
    · rfl
    · rfl
    · refine (Recorded.find?_record state.findings.definitions id other type).trans (if_neg ?_)
      rintro rfl
      exact hkey List.mem_cons_self
  · intro state _ _ final hfinal
    apply Eq.trans (hfinal (.definition, id) List.mem_cons_self)
    exact (Recorded.find?_record state.findings.definitions id id type).trans (if_pos rfl)

theorem sound_declare (new : Variable) : Sound (declare new) [] fun _ _ => True := by
  apply sound_get.bind
  intro state
  split
  · next scopes _ =>
    refine (sound_of_kept (P := fun _ => True) (fun _ => rfl) (fun _ => rfl)
      fun _ => trivial).bindRest fun _ => ?_
    exact .pure fun _ _ _ => trivial
  · exact (sound_refuse _ _ _).absurd

theorem sound_resolve? (env : TypeEnv) (path : NamePath) :
    Sound (resolve? env path) [] fun _ resolved? => ∀ resolved ∈ resolved?, resolved.path = path := by
  refine sound_get.bind fun state => .pure fun _ _ resolved hresolved => ?_
  simp only [Option.mem_def, Option.bind_eq_bind, Option.bind_eq_some_iff] at hresolved
  obtain ⟨_, _, _, _, heq⟩ := hresolved
  cases heq
  rfl

theorem sound_inScope {action : Check α} {keys : List FindingKey} {P : Findings → α → Prop}
    (h : Sound action keys P) : Sound (inScope action) keys P :=
  ⟨fun state => h.continues { state with scopes := state.scopes.enter },
    fun state => h.frame { state with scopes := state.scopes.enter },
    fun state => h.post { state with scopes := state.scopes.enter }⟩

theorem sound_ownedBy {action : Check α} {keys : List FindingKey} {P : Findings → α → Prop}
    (h : Sound action keys P) (owner : String) : Sound (ownedBy owner action) keys P := by
  refine ⟨?_, ?_, ?_⟩
  · intro state
    exact ⟨(h.continues { state with log.owner := some owner }).entries, rfl⟩
  · exact fun state => h.frame { state with log.owner := some owner }
  · exact fun state => h.post { state with log.owner := some owner }

/-! ### Actions on lists -/

theorem sound_forM {items : List α} {f : α → Check PUnit} {keys : α → List FindingKey}
    {P : α → Findings → Prop} (h : ∀ item ∈ items, Sound (f item) (keys item) fun final _ =>
      P item final) :
    Sound (items.forM f) (items.flatMap keys) fun final _ => ∀ item ∈ items, P item final := by
  induction items with
  | nil => exact .pure fun _ _ hitem => nomatch hitem
  | cons item items ih =>
    rw [List.flatMap_cons]
    apply (h item List.mem_cons_self).bind
    intro _
    refine (ih fun other hother => h other (List.mem_cons_of_mem _ hother)).weaken ?_
    intro final _ htail hhead other hother
    rcases List.mem_cons.1 hother with rfl | hother
    · exact hhead
    · exact htail other hother

theorem sound_mapM {items : List α} {f : α → Check β} {P : α → β → Prop}
    (h : ∀ item ∈ items, Sound (f item) [] fun _ result => P item result) :
    Sound (items.mapM f) [] fun _ results => List.Forall₂ P items results := by
  induction items with
  | nil => exact .pure fun _ => .nil
  | cons item items ih =>
    rw [List.mapM_cons]
    apply (h item List.mem_cons_self).bind
    intro _
    refine (ih fun other hother => h other (List.mem_cons_of_mem _ hother)).bindRest fun _ => ?_
    exact .pure fun _ htail hhead => .cons hhead htail

theorem sound_forM_option {item? : Option α} {f : α → Check PUnit} {keys : α → List FindingKey}
    {P : α → Findings → Prop} (h : ∀ item ∈ item?, Sound (f item) (keys item) fun final _ =>
      P item final) :
    Sound (item?.forM f) (item?.toList.flatMap keys) fun final _ =>
      ∀ item ∈ item?, P item final := by
  cases item? with
  | none => exact .pure fun _ _ hitem => nomatch hitem
  | some item =>
    rw [Option.toList_some, List.flatMap_singleton]
    apply (h item rfl).weaken
    intro final _ hpost other hother
    cases hother
    exact hpost

end Check

end DecisionLang
