import DecisionLang.Proofs.Checking.Document
import DecisionLang.Proofs.Checking.Scoped
import DecisionLang.Proofs.Typing.Defaults

/-!
# How definitions come into scope

What `Check.Sound` says of an action holds in whatever scopes the action starts. Where the scopes
matter, the action is run in given ones (`Check.runIn`), and its postcondition is about the scopes
that it leaves, too. In this way the definitions of a function or record type are followed from one
to the next: `TypeEnv.enter_check`, and `TypeEnv.introduced_check` for definitions that hide no root
declaration.
-/

namespace DecisionLang.Check

variable {α β : Type}

/-- An action in given scopes, with the scopes that it leaves. -/
def runIn (before : Scopes) (action : Check α) : Check (α × Scopes) := do
  modify fun state => { state with scopes := before }
  let result ← action
  return (result, (← get).scopes)

theorem runIn_congr {before : Scopes} {action action' : Check α}
    (h : ∀ state : CheckState, state.scopes = before → action.run state = action'.run state) :
    runIn before action = runIn before action' :=
  funext fun state => congrArg
    (fun done : α × CheckState => ((done.1, done.2.scopes), done.2))
    (h { state with scopes := before } rfl)

namespace Sound

variable {action : Check α} {rest : α → Check β} {keys keys' : List FindingKey} {before : Scopes}

theorem and {P Q : Findings → α → Prop} (h : Sound action keys P) (h' : Sound action keys Q) :
    Sound action keys fun final result => P final result ∧ Q final result :=
  ⟨h.continues, h.frame, fun state hnodup hlog final hfinal =>
    ⟨h.post state hnodup hlog final hfinal, h'.post state hnodup hlog final hfinal⟩⟩

/-- What holds in all scopes holds in given ones, and the action can be traced to a state. -/
theorem runIn {P : Findings → α → Prop} (h : Sound action keys P) (before : Scopes) :
    Sound (runIn before action) keys fun final done => P final done.1 ∧
      ∃ state : CheckState, state.scopes = before ∧
        done = ((action.run state).1, (action.run state).2.scopes) :=
  ⟨fun state => h.continues { state with scopes := before },
    fun state => h.frame { state with scopes := before },
    fun state hnodup hlog final hfinal =>
      ⟨h.post { state with scopes := before } hnodup hlog final hfinal,
        { state with scopes := before }, rfl, rfl⟩⟩

theorem bindIn {P : Findings → α × Scopes → Prop} {Q : Findings → β × Scopes → Prop}
    (h : Sound (Check.runIn before action) keys P)
    (hrest : ∀ done, Sound (Check.runIn done.2 (rest done.1)) keys' fun final last =>
      P final done → Q final last) :
    Sound (Check.runIn before (action >>= rest)) (keys ++ keys') Q :=
  h.bind hrest

theorem bindRestIn {P : Findings → α × Scopes → Prop} {Q : Findings → β × Scopes → Prop}
    (h : Sound (Check.runIn before action) keys P)
    (hrest : ∀ done, Sound (Check.runIn done.2 (rest done.1)) [] fun final last =>
      P final done → Q final last) :
    Sound (Check.runIn before (action >>= rest)) keys Q :=
  h.bindRest hrest

theorem absurdIn {P : Findings → α × Scopes → Prop} (h : Sound action [] fun _ _ => False)
    (before : Scopes) : Sound (Check.runIn before action) keys P :=
  (h.runIn before).mono List.nil_subperm fun _ _ hfalse => hfalse.1.elim

theorem discardIn {P : Findings → α × Scopes → Prop} (h : Sound (Check.runIn before action) keys P) :
    Sound (Check.runIn before (Functor.discard action)) keys fun final done =>
      ∃ result, P final (result, done.2) :=
  ⟨fun state => h.continues state, fun state => h.frame state,
    fun state hnodup hlog final hfinal => ⟨_, h.post state hnodup hlog final hfinal⟩⟩

theorem inScopeIn {P : Findings → α × Scopes → Prop}
    (h : Sound (Check.runIn before.enter action) keys P) :
    Sound (Check.runIn before (inScope action)) keys fun final done =>
      ∃ inner, P final (done.1, inner) :=
  ⟨fun state => h.continues state, fun state => h.frame state,
    fun state hnodup hlog final hfinal => ⟨_, h.post state hnodup hlog final hfinal⟩⟩

theorem ownedByIn {P : Findings → α × Scopes → Prop} (h : Sound (Check.runIn before action) keys P)
    (owner : String) : Sound (Check.runIn before (ownedBy owner action)) keys P :=
  sound_ownedBy h owner

end Sound

theorem sound_declareIn (new : Variable) (before : Scopes) :
    Sound (runIn before (declare new)) [] fun _ done => before.declare? new = some done.2 := by
  cases hdeclare : before.declare? new with
  | some scopes =>
    have hrun : runIn before (declare new) =
        runIn before (do modify fun state => { state with scopes }; return true) :=
      runIn_congr fun state hstate => by rw [run_declare, hstate, hdeclare]; rfl
    rw [hrun]
    refine ((sound_of_kept (P := fun _ => True) (fun _ => rfl) (fun _ => rfl)
      fun _ => trivial).runIn before).weaken ?_
    rintro _ _ ⟨_, _, _, rfl⟩
    rfl
  | none =>
    have hrun : runIn before (declare new) = runIn before
        (do report (.redeclaredVariable new.name) new.reference; return false) :=
      runIn_congr fun state hstate => by rw [run_declare, hstate, hdeclare]; rfl
    rw [hrun]
    exact (sound_refuse _ _ _).absurdIn before

theorem sound_introduceIn (declared : Declared) (origin : Origin) (type : Ty) (before : Scopes) :
    Sound (runIn before (introduce declared origin type)) [(.definition, declared.id)]
      fun final done => final.definitions.find? declared.id = some type ∧
        before.declare? ⟨declared.name, type, origin, declared.reference⟩ = some done.2 := by
  refine ((sound_recordDefinition declared.id type).runIn before).bindRestIn fun done => ?_
  refine (sound_declareIn _ done.2).discardIn.weaken ?_
  rintro final last ⟨_, hdeclared⟩ ⟨hrecorded, state, rfl, rfl⟩
  exact ⟨hrecorded, hdeclared⟩

/-! ### Definitions -/

/-- The type that a definition has in given scopes: the written one, or the one that its default
value has when it is checked there. -/
inductive Takes (env : TypeEnv) (before : Scopes) (item : Definition) (type : Ty) : Prop
  | written (hwritten : item.type ≠ .implicit) (htype : env.resolve? item.type = some type)
  | untyped {value : Expr} {state : CheckState} (himplicit : item.type = .implicit)
      (hvalue : item.default = some value) (hscopes : state.scopes = before)
      (htype : ((expression env value).run state).1 = some type)

/-- Scopes in which a default value, if there is one, has been checked. -/
inductive AfterDefault (env : TypeEnv) (before : Scopes) : Option Expr → Scopes → Prop
  | none : AfterDefault env before none before
  | some {value : Expr} {state : CheckState} (hscopes : state.scopes = before) :
      AfterDefault env before (some value) ((expression env value).run state).2.scopes

/-- What a definition finds in scope and what it leaves there, if it is checked without errors.
Variables that its default value declares come first. -/
inductive Enters (env : TypeEnv) (final : Findings) (before : Scopes) (item : Definition) :
    Scopes → Prop
  | intro {type : Ty} {middle after : Scopes} {origin : Origin}
      (hrecorded : final.definitions.find? item.id = some type)
      (hmiddle : AfterDefault env before item.default middle)
      (hdeclared : middle.declare? ⟨item.name, type, origin, item.reference⟩ = some after)
      (htakes : Takes env before item type) : Enters env final before item after

/-- A definition comes into scope behind variables that its default value declares, which may not
have names of root declarations. -/
inductive Introduced (env : TypeEnv) (final : Findings) (before : Scopes) (item : Definition) :
    Scopes → Prop
  | intro {type : Ty} {middle after : Scopes} {origin : Origin}
      (hrecorded : final.definitions.find? item.id = some type)
      (hgrows : before.Grows (fun name => env.rootType? name = none) middle)
      (hdeclared : middle.declare? ⟨item.name, type, origin, item.reference⟩ = some after)
      (htakes : Takes env before item type) : Introduced env final before item after

variable {env : TypeEnv} {item : Definition} {before : Scopes}

theorem Takes.of_written {type : Ty} (htype : env.resolve? item.type = some type) :
    Takes env before item type := by
  refine .written (fun himplicit => ?_) htype
  rw [himplicit] at htype
  cases htype

theorem Enters.introduced {final : Findings} {after : Scopes}
    (h : Enters env final before item after)
    (hinner : ∀ value ∈ item.default, ∀ name ∈ value.declaredNames, env.rootType? name = none) :
    Introduced env final before item after := by
  obtain ⟨hrecorded, hmiddle, hdeclared, htakes⟩ := h
  refine .intro hrecorded ?_ hdeclared htakes
  generalize item.default = default at hmiddle hinner
  cases hmiddle with
  | none => exact .refl _
  | @some value state hscopes =>
    rw [← hscopes]
    exact grows_expression env (hinner value rfl) state

/-- The type of a definition is settled once its default value was checked. -/
theorem sound_afterDefault {value : Expr} (hvalue : item.default = some value)
    (hknown : ¬(item.type ≠ .implicit ∧ (env.resolve? item.type).isNone = true))
    (origin : Origin) (before : Scopes) (done : Option Ty × Scopes) :
    Sound (runIn done.2 (match env.resolve? item.type, done.1 with
      | some wanted, some offered =>
        if env.assignable wanted offered then
          introduce ⟨item.id, item.name, item.type, item.reference⟩ origin wanted
        else report (.expressionType wanted offered) value.reference
      | some type, none | none, some type =>
        introduce ⟨item.id, item.name, item.type, item.reference⟩ origin type
      | none, none => pure ())) [(.definition, item.id)] fun final last =>
      (Yields env (fun final type => Found env final value type) final done.1 ∧
        ∃ state : CheckState, state.scopes = before ∧
          done = (((expression env value).run state).1, ((expression env value).run state).2.scopes)) →
      env.ColumnsResolve → Enters env final before item last.2 := by
  obtain ⟨offered?, middle⟩ := done
  have hintroduced (type : Ty) (htakes : ∀ state : CheckState, state.scopes = before →
      ((expression env value).run state).1 = offered? → Takes env before item type) :
      Sound (runIn middle
        (introduce ⟨item.id, item.name, item.type, item.reference⟩ origin type))
        [(.definition, item.id)] fun final last =>
          (Yields env (fun final type => Found env final value type) final offered? ∧
            ∃ state : CheckState, state.scopes = before ∧ (offered?, middle) =
              (((expression env value).run state).1,
                ((expression env value).run state).2.scopes)) →
          env.ColumnsResolve → Enters env final before item last.2 := by
    refine (sound_introduceIn _ origin type middle).weaken ?_
    rintro final last ⟨hrecorded, hdeclared⟩ ⟨_, state, hscopes, hdone⟩ _
    obtain ⟨hoffered, rfl⟩ := Prod.mk.inj hdone
    refine .intro hrecorded ?_ hdeclared (htakes state hscopes hoffered.symm)
    rw [hvalue]
    exact .some hscopes
  cases hwanted : env.resolve? item.type with
  | none =>
    have himplicit : item.type = .implicit := by simpa [hwanted] using hknown
    cases offered? with
    | none =>
      have hnothing : Sound (pure () : Check Unit) [] fun _ _ => True := .pure fun _ => trivial
      refine ((hnothing.runIn middle).weaken ?_).mono List.nil_subperm fun _ _ h => h
      exact fun _ _ _ h hcolumns => absurd hcolumns (yields_none.1 h.1)
    | some offered => exact hintroduced offered fun _ => .untyped himplicit hvalue
  | some wanted =>
    have hwritten : Takes env before item wanted := .of_written hwanted
    cases offered? with
    | none => exact hintroduced wanted fun _ _ _ => hwritten
    | some offered =>
      dsimp only
      split
      · exact hintroduced wanted fun _ _ _ => hwritten
      · exact ((sound_report _ _).absurdIn middle).mono List.nil_subperm fun _ _ h => h

theorem sound_definitionIn (origin : Origin) (before : Scopes) :
    Sound (runIn before (definition env origin item)) (Node.definition item).keys
      fun final done => env.ColumnsResolve → Enters env final before item done.2 := by
  refine Sound.mono (P := fun final done => env.ColumnsResolve →
    Enters env final before item done.2) ?_ (Node.subperm_keys_definition item)
    fun _ _ h => h
  unfold definition declaration
  dsimp only
  split
  · exact ((sound_report _ _).absurdIn before).mono List.nil_subperm fun _ _ h => h
  · next hknown =>
    cases hvalue : item.default with
    | none =>
      cases hwanted : env.resolve? item.type with
      | none => exact ((sound_report _ _).absurdIn before).mono List.nil_subperm fun _ _ h => h
      | some wanted =>
        refine Sound.weaken (sound_introduceIn _ origin wanted before) ?_
        rintro final done ⟨hrecorded, hdeclared⟩ _
        exact .intro hrecorded (hvalue ▸ .none) hdeclared (.of_written hwanted)
    | some value =>
      rw [Option.toList_some, List.flatMap_singleton]
      refine ((checked_expression env value).runIn before).bindIn fun done => ?_
      exact sound_afterDefault hvalue (by simpa using hknown) origin before done

/-! ### Definitions of a block -/

/-- Items that are dealt with one after the other, each in the scopes that the one before leaves. -/
inductive InTurn (Step : Scopes → α → Scopes → Prop) : Scopes → List α → Scopes → Prop
  | nil {scopes : Scopes} : InTurn Step scopes [] scopes
  | cons {before middle after : Scopes} {item : α} {items : List α} (hstep : Step before item middle)
      (hrest : InTurn Step middle items after) : InTurn Step before (item :: items) after

theorem inTurn_append {Step : Scopes → α → Scopes → Prop} {before after : Scopes}
    {first second : List α} : InTurn Step before (first ++ second) after ↔
      ∃ middle, InTurn Step before first middle ∧ InTurn Step middle second after := by
  induction first generalizing before with
  | nil =>
    refine ⟨fun h => ⟨before, .nil, h⟩, ?_⟩
    rintro ⟨_, ⟨⟩, h⟩
    exact h
  | cons item first ih =>
    constructor
    · rintro (_ | ⟨hstep, hrest⟩)
      obtain ⟨middle, hfirst, hsecond⟩ := ih.1 hrest
      exact ⟨middle, .cons hstep hfirst, hsecond⟩
    · rintro ⟨middle, _ | ⟨hstep, hfirst⟩, hsecond⟩
      exact .cons hstep (ih.2 ⟨middle, hfirst, hsecond⟩)

theorem InTurn.exists_step {Step : Scopes → α → Scopes → Prop} {before after : Scopes}
    {items : List α} (h : InTurn Step before items after) {item : α} (hitem : item ∈ items) :
    ∃ before after, Step before item after := by
  induction h with
  | nil => cases hitem
  | cons hstep _ ih =>
    rcases List.mem_cons.1 hitem with rfl | hitem
    · exact ⟨_, _, hstep⟩
    · exact ih hitem

theorem InTurn.imp {Step Step' : Scopes → α → Scopes → Prop} {before after : Scopes}
    {items : List α} (h : InTurn Step before items after)
    (himp : ∀ item ∈ items, ∀ before after, Step before item after → Step' before item after) :
    InTurn Step' before items after := by
  induction h with
  | nil => exact .nil
  | cons hstep _ ih =>
    obtain ⟨hitem, hitems⟩ := List.forall_mem_cons.1 himp
    exact .cons (hitem _ _ hstep) (ih hitems)

theorem sound_forMIn {items : List α} {f : α → Check PUnit} {keys : α → List FindingKey}
    {Step : Findings → Scopes → α → Scopes → Prop} {C : Prop}
    (h : ∀ item ∈ items, ∀ before, Sound (runIn before (f item)) (keys item)
      fun final done => C → Step final before item done.2) (before : Scopes) :
    Sound (runIn before (items.forM f)) (items.flatMap keys)
      fun final done => C → InTurn (Step final) before items done.2 := by
  induction items generalizing before with
  | nil =>
    refine ((Sound.pure (P := fun _ _ => True) fun _ => trivial).runIn before).weaken ?_
    rintro final _ ⟨_, state, rfl, rfl⟩ _
    exact .nil
  | cons item items ih =>
    rw [List.flatMap_cons]
    refine (h item List.mem_cons_self before).bindIn fun done => ?_
    refine (ih (fun other hother => h other (List.mem_cons_of_mem _ hother)) done.2).weaken ?_
    exact fun final last hrest hstep hC => .cons (hstep hC) (hrest hC)

def AllEnter (env : TypeEnv) (final : Findings) (item : Declaration) : Prop :=
  ∃ after, InTurn (Enters env final) ({} : Scopes).enter item.definitions after

theorem sound_functionIn (decl : FunctionDecl) :
    Sound (runIn {} (function env decl)) (Node.function decl).keys fun final _ =>
      env.ColumnsResolve → AllEnter env final (.function decl) := by
  rw [Node.collect_function Node.keys_of_isTyped, List.append_assoc]
  refine (Sound.inScopeIn (P := fun final done => env.ColumnsResolve →
    AllEnter env final (.function decl)) ?_).weaken fun _ _ ⟨_, h⟩ => h
  refine Sound.bindIn (sound_forMIn (fun _ _ => sound_definitionIn .parameters) _) fun middle => ?_
  refine Sound.bindIn (sound_forMIn (fun _ _ => sound_definitionIn .results) _) fun after => ?_
  refine ((sound_forM fun line _ => sound_line line).runIn after.2).weaken ?_
  intro final done _ hsecond hfirst hcolumns
  exact ⟨_, inTurn_append.2 ⟨_, hfirst hcolumns, hsecond hcolumns⟩⟩

theorem sound_recordIn (decl : RecordDecl) :
    Sound (runIn {} (record env decl)) (Node.record decl).keys fun final _ =>
      env.ColumnsResolve → AllEnter env final (.record decl) := by
  have hmembers (member : Definition) (_ : member ∈ decl.members) (before : Scopes) :
      Sound (runIn before (recordMember env decl member)) (Node.definition member).keys
        fun final done => env.ColumnsResolve → Enters env final before member done.2 := by
    unfold recordMember
    split
    · exact ((sound_report _ _).absurdIn before).mono List.nil_subperm fun _ _ h => h
    · exact sound_definitionIn .record before
  rw [Node.collect_record Node.keys_of_isTyped]
  refine (Sound.inScopeIn (sound_forMIn hmembers _)).weaken ?_
  exact fun final done ⟨inner, hinner⟩ hcolumns => ⟨inner, hinner hcolumns⟩

/-- What checking a root declaration finds out, in no scope but its own. -/
theorem sound_rootIn (item : Declaration) :
    Sound (runIn {} (root env item)) (Node.ofDeclaration item).keys fun final done =>
      (env.ColumnsResolve → AllEnter env final item) ∧ done.2 = {} := by
  have hscopes : Sound (runIn {} (root env item)) (Node.ofDeclaration item).keys
      fun _ done => done.2 = {} := by
    refine ((sound_root item).runIn {}).weaken ?_
    rintro _ _ ⟨_, state, hstate, rfl⟩
    exact (scopes_root env item state).trans hstate
  refine Sound.and ?_ hscopes
  cases item with
  | function decl => exact sound_functionIn decl
  | record decl => exact sound_recordIn decl
  | _ => exact hscopes.weaken fun _ _ _ _ => ⟨_, .nil⟩

/-- Actions that leave scopes as they are can be run one by one in the scopes at the start. -/
theorem run_forM_of_kept {items : List α} {f : α → Check Unit}
    (h : ∀ item ∈ items, ∀ state : CheckState, ((f item).run state).2.scopes = state.scopes)
    (state : CheckState) :
    (items.forM f).run state =
      (items.forM fun item => discard (runIn state.scopes (f item))).run state := by
  induction items generalizing state with
  | nil => rfl
  | cons item items ih =>
    have hscopes := h item List.mem_cons_self state
    have hrest := ih (fun other hother => h other (List.mem_cons_of_mem _ hother))
      ((f item).run state).2
    rw [hscopes] at hrest
    exact hrest

theorem sound_rootsIn {P : Declaration → Findings → Prop}
    (h : ∀ item, Sound (runIn {} (root env item)) (Node.ofDeclaration item).keys
      fun final _ => P item final) (items : List Declaration) :
    Sound (items.forM fun item => discard (runIn {} (ownedBy item.name (root env item))))
      (items.flatMap fun item => (Node.ofDeclaration item).keys)
      fun final _ => ∀ item ∈ items, P item final :=
  sound_forM fun item _ => ((h item).ownedByIn item.name).discard.weaken fun _ _ ⟨_, hpost⟩ => hpost

/-- Neither a definition without a written type nor a variable that a default value declares has
the name of a root declaration. -/
def Unhidden (env : TypeEnv) (definitions : List Definition) : Prop :=
  ∀ item ∈ definitions, (item.type = .implicit → env.rootType? item.name = none) ∧
    ∀ value ∈ item.default, ∀ name ∈ value.declaredNames, env.rootType? name = none

/-- The definitions of a function or record type came into its scope one after the other. -/
def AllIntroduced (env : TypeEnv) (final : Findings) (item : Declaration) : Prop :=
  ∃ after, InTurn (Introduced env final) ({} : Scopes).enter item.definitions after

theorem AllEnter.introduced {final : Findings} {item : Declaration} (h : AllEnter env final item)
    (hunhidden : Unhidden env item.definitions) : AllIntroduced env final item := by
  obtain ⟨after, hafter⟩ := h
  exact ⟨after, hafter.imp fun definition hmem _ _ henters =>
    henters.introduced (hunhidden definition hmem).2⟩

end DecisionLang.Check

namespace DecisionLang.TypeEnv

variable {env : TypeEnv} {order : List Nat} {log : Log}

/-- What the check of a root declaration finds out in no scope but its own holds in the end if no
errors are logged. -/
theorem post_checkIn {P : Declaration → Findings → Prop}
    (h : ∀ item, Check.Sound (Check.runIn {} (Check.root env item)) (Node.ofDeclaration item).keys
      fun final _ => P item final)
    (hperm : order.Perm (List.range env.document.declarations.length))
    (hnumbers : env.document.numbers.Nodup) (herrors : (env.check order log).2.hasErrors = false) :
    ∀ item ∈ env.document.declarations, P item (env.check order log).1 := by
  have hitems := Document.perm_declarations hperm
  have hkept (item : Declaration) (_ : item ∈ order.filterMap (env.document.declarations[·]?))
      (state : CheckState) :
      ((Check.ownedBy item.name (Check.root env item)).run state).2.scopes = state.scopes :=
    Check.scopes_root env item { state with log.owner := some item.name }
  have hroots := Check.sound_rootsIn h (order.filterMap (env.document.declarations[·]?))
  unfold check Check.roots at herrors ⊢
  rw [Check.run_forM_of_kept hkept] at herrors ⊢
  intro item hitem
  refine hroots.post { log } ?_ herrors _ (fun key _ => .refl _ key) item (hitems.mem_iff.2 hitem)
  refine (Document.perm_keys hperm).nodup_iff.2 (FindingKey.nodup_flatMap_all ?_)
  exact (List.nodup_append.1 (Document.nodup_recorded hnumbers)).1

/-- If no errors are logged, the definitions of every function and record type entered its scope
one after the other. -/
theorem enter_check (hperm : order.Perm (List.range env.document.declarations.length))
    (hnumbers : env.document.numbers.Nodup) (herrors : (env.check order log).2.hasErrors = false) :
    ∀ item ∈ env.document.declarations, Check.AllEnter env (env.check order log).1 item := by
  have hall := post_checkIn (P := fun item final => env.ColumnsResolve → Check.AllEnter env final item)
    (fun item => (Check.sound_rootIn item).weaken fun _ _ h => h.1) hperm hnumbers herrors
  exact fun item hitem => hall item hitem (columnsResolve_check hperm hnumbers herrors)

/-- If no errors are logged, the definitions of every function and record type came into its scope
one after the other. -/
theorem introduced_check (hperm : order.Perm (List.range env.document.declarations.length))
    (hnumbers : env.document.numbers.Nodup) (herrors : (env.check order log).2.hasErrors = false)
    (hunhidden : ∀ item ∈ env.document.declarations, Check.Unhidden env item.definitions) :
    ∀ item ∈ env.document.declarations,
      Check.AllIntroduced env (env.check order log).1 item := fun item hitem =>
  (enter_check hperm hnumbers herrors item hitem).introduced (hunhidden item hitem)

end DecisionLang.TypeEnv
