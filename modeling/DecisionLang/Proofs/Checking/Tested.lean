import DecisionLang.Proofs.Checking.Introduced
import DecisionLang.Proofs.Checking.Values

/-!
# What the blocks of a scenario are checked for

The blocks of a scenario are about the parameters and results of the function under test. In a
document that is checked without errors they assign to variables, the columns of the validation
table are parameters, results or members of those, and everything in them has a type, but only where
there is a function under test: a scenario of an enumeration or a table alone can have the same
blocks, and nobody looks at them. Main statement: `Dialect.Compiles.tested_iff`.
-/

namespace DecisionLang

/-- The function that a scenario tests. -/
def TypeEnv.subject? (env : TypeEnv) (decl : ScenarioDecl) : Option FunctionDecl :=
  match decl.function with
  | none => none
  | some (.inline inner) => some inner
  | some (.named name _) => env.document.function? name

namespace ScenarioDecl

/-- A column of a validation table leads to a type from a parameter or result of a function. -/
def Names (env : TypeEnv) (decl : FunctionDecl) (column : ValidationColumn) : Prop :=
  let path := NamePath.ofParts (Text.dotted column.name)
  ∃ role, ∃ item ∈ Check.roleDefinitions decl role, item.name = path.root ∧
    ∃ type, (env.functionMembers decl role).first? item.name = some type ∧
      (env.follow? type path.members).isSome = true

/-- All that a scenario says about the function under test was checked. -/
structure Tested (env : TypeEnv) (findings : Findings) (decl : ScenarioDecl) : Prop where
  /-- Everything in the blocks has a type. -/
  typed : ∀ block ∈ decl.blocks, ∀ item, Node.expression item ∈ block.walk →
    (findings.type? item).isSome = true
  /-- The lines of the blocks for parameters and results assign to variables. -/
  assigned : ∀ block ∈ decl.parameters.toList ++ decl.results.toList, ∀ line ∈ block.assignments,
    ∃ mark target value, line = .assign mark target value ∧
      (findings.resolved.find? target.id).isSome = true
  columns : ∀ item ∈ decl.validationTable, ∀ column ∈ item.header.getD [],
    ∃ subject, env.subject? decl = some subject ∧ Names env subject column

/-- The blocks about the function under test say nothing. -/
structure SaysNothing (decl : ScenarioDecl) : Prop where
  assignments : ∀ block ∈ decl.parameters.toList ++ decl.results.toList, block.assignments = []
  columns : ∀ item ∈ decl.validationTable, item.header.getD [] = []

end ScenarioDecl

namespace Check

variable {env : TypeEnv}

/-! ### Targets of assignments -/

theorem sound_isSome_pathType? (mark : Mark) (path : NamePath) :
    Sound (pathType? env mark path) [(.variable, mark.id)] fun _ type? => type?.isSome = true := by
  apply (sound_resolve? env path).bind
  intro resolved?
  cases resolved? with
  | some resolved =>
    exact (sound_recordVariable mark.id resolved).bindRest fun _ => .pure fun _ _ _ => rfl
  | none =>
    refine (sound_ambientType? env mark path).mono List.nil_subperm ?_
    rintro _ _ ⟨_, rfl, _⟩ _
    rfl

theorem sound_isSome_target (mark : Mark) (path : NamePath) :
    Sound (do
      let type? ← pathType? env mark path
      if let some type := type? then recordType mark.id type
      return type?) [(.variable, mark.id), (.type, mark.id)] fun _ type? => type?.isSome = true := by
  change Sound _ ([(.variable, mark.id)] ++ [(.type, mark.id)]) _
  refine (sound_isSome_pathType? mark path).bind fun type? => ?_
  cases type? with
  | none => exact Sound.mono (.pure fun _ h => h) List.nil_subperm fun _ _ h => h
  | some type => exact (sound_recordType mark.id type).bindRest fun _ => .pure fun _ _ _ => rfl

theorem isSome_expression_target {target : Expr} (htarget : (partOf env target).isTarget = true)
    (state : CheckState)
    (h : ((expression env target).run state).2.log.hasErrors = false) :
    ((expression env target).run state).1.isSome = true := by
  have hnodup (mark : Mark) : [(FindingKind.variable, mark.id), (.type, mark.id)].Nodup := by simp
  cases target with
  | name mark word =>
    rw [expression] at h ⊢
    exact (sound_isSome_target mark _).post state (hnodup mark) h _ fun key _ => .refl _ key
  | path mark names =>
    rw [expression] at h ⊢
    exact (sound_isSome_target mark _).post state (hnodup mark) h _ fun key _ => .refl _ key
  | _ => cases htarget

theorem hasErrors_refuseTarget (target : Part) (state : CheckState) :
    ((refuseTarget target).run state).2.log.hasErrors = true :=
  Log.hasErrors_report _ _

/-- What is refused unless a variable is recorded under a number. -/
theorem isSome_resolved_of_guard {α : Type} {id : Nat} {refused rest : Check α}
    (hrefused : ∀ state, (refused.run state).2.log.hasErrors = true)
    (hrest : ∀ state : CheckState, (rest.run state).2.findings = state.findings) {state : CheckState}
    (h : ((do
      if ((← get).findings.resolved.find? id).isNone then refused
      else rest : Check α).run state).2.log.hasErrors = false) :
    (((do
      if ((← get).findings.resolved.find? id).isNone then refused
      else rest : Check α).run state).2.findings.resolved.find? id).isSome = true := by
  rw [StateT.run_bind, StateT.run_get, pure_bind] at h ⊢
  dsimp only at h ⊢
  split at h
  · rw [hrefused state] at h
    cases h
  · next hfound =>
    rw [if_neg hfound, hrest]
    simpa [Option.isSome_iff_ne_none] using hfound

theorem isSome_resolved_assignment (mark : Mark) (target value : Expr) (state : CheckState)
    (h : ((assignment env mark (partOf env target) (partOf env value)).run state).2.log.hasErrors =
      false) :
    (((assignment env mark (partOf env target) (partOf env value)).run state).2.findings.resolved.find?
      target.id).isSome = true := by
  unfold assignment at h ⊢
  by_cases htarget : (partOf env target).isTarget = true
  · rw [if_neg (by simp [htarget]), StateT.run_bind] at h ⊢
    have hsome := isSome_expression_target htarget state
    generalize hfirst : (partOf env target).check.run state = first at h ⊢
    rw [show (expression env target).run state = first from hfirst] at hsome
    obtain ⟨target?, middle⟩ := first
    have hvalue := (checked_expression env value).continues middle
    cases target? with
    | none => cases hsome (hvalue.hasErrors_eq_false h)
    | some wanted =>
      refine isSome_resolved_of_guard (hasErrors_refuseTarget _) (fun after => ?_) h
      split
      · rfl
      · split <;> rfl
  · rw [if_pos (by simp [htarget])] at h
    have hvalue := (checked_expression env value).continues
      ((refuseTarget (partOf env target)).run state).2
    have herrors := hvalue.hasErrors (hasErrors_refuseTarget _ _)
    exact absurd (herrors.symm.trans h) (by decide)

theorem isSome_resolved_assign {mark : Mark} {target value : Expr} {state : CheckState}
    (h : ((expression env (.assign mark target value)).run state).2.log.hasErrors = false) :
    (((expression env (.assign mark target value)).run state).2.findings.resolved.find?
      target.id).isSome = true := by
  rw [expression, StateT.run_bind] at h ⊢
  have hassigned : ((assignment env mark (partOf env target) (partOf env value)).run
      state).2.log.hasErrors = false → _ := isSome_resolved_assignment mark target value state
  generalize hderive : (derive env (.assign mark target value) fun inner _ =>
    expression env inner).run state = derived at h ⊢
  rw [show (assignment env mark (partOf env target) (partOf env value)).run state = derived
    from hderive] at hassigned
  obtain ⟨_ | type, after⟩ := derived
  · exact hassigned h
  · exact hassigned h

theorem mem_keys_assign (mark : Mark) (target value : Expr) :
    (FindingKind.variable, target.id) ∈ (Node.expression (.assign mark target value)).keys := by
  rw [Node.keys_expression, Expr.keys_eq]
  refine List.mem_append_right _ (List.mem_flatMap.2 ⟨target, List.mem_cons_self, ?_⟩)
  rw [Expr.keys_eq]
  exact List.mem_append_left _ (by simp [FindingKey.all])

def Assigns (final : Findings) (line : Expr) : Prop :=
  ∀ mark target value, line = .assign mark target value →
    (final.resolved.find? target.id).isSome = true

theorem sound_assigns (line : Expr) :
    Sound (discard (expression env line)) (Node.expression line).keys fun final _ =>
      Assigns final line := by
  refine ⟨(sound_line line).continues, (sound_line line).frame, ?_⟩
  rintro state _ hlog final hfinal mark target value rfl
  rw [show final.resolved.find? target.id = _ from hfinal _ (mem_keys_assign mark target value)]
  exact isSome_resolved_assign hlog

theorem sound_assignsAll (decl : FunctionDecl) (role : BlockRole) (block : AssignmentBlock) :
    Sound (assignments env decl role block) (Node.assignments role block).keys fun final _ =>
      ∀ line ∈ block.assignments, Assigns final line := by
  rw [Node.keys_of_isTyped _ rfl, Node.children, List.flatMap_map]
  refine sound_inScope ((sound_declareMembers decl role).bind fun _ => ?_)
  exact (sound_forM fun line _ => sound_assigns line).weaken fun _ _ hlines _ => hlines

/-! ### Columns of validation tables -/

/-- A variable stands for a parameter or result of a function. -/
def IsMember (env : TypeEnv) (decl : FunctionDecl) (role : BlockRole) (new : Variable) : Prop :=
  ∃ item ∈ roleDefinitions decl role, item.name = new.name ∧
    (env.functionMembers decl role).first? item.name = some new.type

theorem sound_pureIn {α : Type} (value : α) (before : Scopes) :
    Sound (runIn before (pure value)) [] fun _ done => done = (value, before) := by
  refine ((Sound.pure (P := fun _ _ => True) fun _ => trivial).runIn before).weaken ?_
  rintro _ _ ⟨_, state, rfl, rfl⟩
  rfl

theorem InTurn.gains {α : Type} {allowed : Variable → Prop} {before after : Scopes} {items : List α}
    (h : InTurn (fun scopes _ after => scopes.Gains allowed after) before items after) :
    before.Gains allowed after := by
  induction h with
  | nil => exact .refl _
  | cons hstep _ ih => exact hstep.trans ih

theorem sound_declareMembersIn (decl : FunctionDecl) (role : BlockRole) (before : Scopes) :
    Sound (runIn before (declareMembers env decl role)) [] fun _ done =>
      before.Gains (IsMember env decl role) done.2 := by
  have hkeys : (roleDefinitions decl role).flatMap (fun _ => ([] : List FindingKey)) = [] := by simp
  have hmembers : Sound (runIn before (declareMembers env decl role))
      ((roleDefinitions decl role).flatMap fun _ => []) fun _ done =>
        True → InTurn (fun scopes _ after => scopes.Gains (IsMember env decl role) after) before
          (roleDefinitions decl role) done.2 := by
    refine sound_forMIn (fun item hitem scopes => ?_) before
    cases htype : (env.functionMembers decl role).first? item.name with
    | none =>
      refine (sound_pureIn _ scopes).weaken ?_
      rintro _ _ rfl _
      exact .refl _
    | some type =>
      refine (sound_declareIn _ scopes).discardIn.weaken ?_
      rintro _ _ ⟨_, hdeclare⟩ _
      exact .declare? hdeclare ⟨item, hitem, rfl, htype⟩
  rw [hkeys] at hmembers
  exact hmembers.weaken fun _ _ hturn => (hturn trivial).gains

/-- The column leads to a type from a variable in given scopes. -/
def Leads (env : TypeEnv) (scopes : Scopes) (column : ValidationColumn) : Prop :=
  let path := NamePath.ofParts (Text.dotted column.name)
  ∃ root, scopes.find? path.root = some root ∧ (env.follow? root.type path.members).isSome = true

theorem sound_validationHeadIn (item : ValidationColumn) (before : Scopes) :
    Sound (runIn before (validationHead env item)) [] fun _ done =>
      done.2 = before ∧ Leads env before item := by
  change Sound _ ([] ++ []) _
  refine ((sound_resolve? env _).runIn before).bindIn fun done => ?_
  obtain ⟨resolved?, scopes⟩ := done
  cases resolved? with
  | none => exact (sound_refuse _ _ _).absurdIn scopes
  | some resolved =>
    refine (sound_pureIn _ scopes).weaken ?_
    rintro _ _ rfl ⟨_, state, rfl, hresolved⟩
    obtain ⟨hfound, hscopes⟩ := Prod.mk.inj hresolved
    refine ⟨hscopes, ?_⟩
    obtain ⟨root, hroot, hfound⟩ := Option.bind_eq_some_iff.1 hfound.symm
    obtain ⟨type, htype, _⟩ := Option.bind_eq_some_iff.1 hfound
    exact ⟨root, hroot, Option.isSome_of_eq_some htype⟩

theorem sound_mapMIn {α β : Type} {items : List α} {f : α → Check β} {P : Scopes → α → Prop}
    (h : ∀ item ∈ items, ∀ before, Sound (runIn before (f item)) [] fun _ done =>
      done.2 = before ∧ P before item) (before : Scopes) :
    Sound (runIn before (items.mapM f)) [] fun _ done =>
      done.2 = before ∧ ∀ item ∈ items, P before item := by
  induction items generalizing before with
  | nil =>
    refine (sound_pureIn _ before).weaken ?_
    rintro _ _ rfl
    exact ⟨rfl, nofun⟩
  | cons item items ih =>
    obtain ⟨hitem, hitems⟩ := List.forall_mem_cons.1 h
    rw [List.mapM_cons]
    refine (hitem before).bindRestIn fun done => (ih hitems done.2).bindRestIn fun rest => ?_
    refine (sound_pureIn _ rest.2).weaken ?_
    rintro _ _ rfl ⟨hrest, hothers⟩ ⟨hfirst, hown⟩
    subst hfirst
    exact ⟨hrest, List.forall_mem_cons.2 ⟨hown, hothers⟩⟩

/-- In no scope but that of the block, variables are parameters and results. -/
theorem names_of_leads {decl : FunctionDecl} {middle after : Scopes} {column : ValidationColumn}
    (hparameters : ({} : Scopes).enter.Gains (IsMember env decl .parameters) middle)
    (hresults : middle.Gains (IsMember env decl .results) after)
    (h : Leads env after column) : ScenarioDecl.Names env decl column := by
  obtain ⟨root, hroot, htype⟩ := h
  have hgains : ({} : Scopes).enter.Gains (fun new => ∃ role, IsMember env decl role new) after :=
    (hparameters.mono fun _ h => ⟨_, h⟩).trans (hresults.mono fun _ h => ⟨_, h⟩)
  obtain ⟨added, rfl, _, hadded⟩ := hgains
  simp only [Scopes.find?, Scopes.enter, Scope.find?, List.nil_append, List.findSome?_cons,
    List.find?_nil, List.findSome?_nil] at hroot
  split at hroot
  · next hfound =>
    cases hroot
    have hname : root.name = (NamePath.ofParts (Text.dotted column.name)).root := by
      simpa using List.find?_some hfound
    obtain ⟨role, item, hitem, hsame, hmember⟩ := (hadded root (List.mem_of_find?_eq_some hfound)).1
    exact ⟨role, item, hitem, hsame.trans hname, root.type, hmember, htype⟩
  · cases hroot

theorem sound_validationTableIn (decl : FunctionDecl) (item : ValidationTable) (before : Scopes) :
    Sound (runIn before (validationTable env decl item)) (Node.validationTable item).keys
      fun _ _ => before = {} →
        ∀ column ∈ item.header.getD [], ScenarioDecl.Names env decl column := by
  rw [Node.keys_of_isTyped _ rfl, Node.children, Node.collect_rows Node.keys_of_isTyped]
  simp only [Node.keys_expression]
  have hinside : Sound (runIn before.enter (do
      declareMembers env decl .parameters
      declareMembers env decl .results
      let columnTypes ← (item.header.getD []).mapM (validationHead env)
      item.rows.forM (row env columnTypes)))
      ([] ++ ([] ++ ([] ++ item.rows.flatMap fun item => item.values.flatMap Expr.keys)))
      fun _ _ => before = {} →
        ∀ column ∈ item.header.getD [], ScenarioDecl.Names env decl column := by
    refine (sound_declareMembersIn decl .parameters _).bindIn fun middle => ?_
    refine (sound_declareMembersIn decl .results middle.2).bindIn fun after => ?_
    refine (sound_mapMIn (fun column _ => sound_validationHeadIn column) after.2).bindIn
      fun heads => ?_
    refine ((sound_forM fun row _ => sound_row heads.1 row).runIn heads.2).weaken ?_
    rintro _ _ _ ⟨_, hheads⟩ hresults hparameters rfl column hcolumn
    exact names_of_leads hparameters hresults (hheads column hcolumn)
  refine hinside.inScopeIn.weaken ?_
  rintro _ _ ⟨_, hnamed⟩
  exact hnamed

/-! ### Scenarios -/

/-- What the blocks say about the function under test was checked against that. -/
structure Examined (env : TypeEnv) (final : Findings) (tests : ScenarioDecl) : Prop where
  assigned : ∀ block ∈ tests.parameters.toList ++ tests.results.toList,
    ∀ line ∈ block.assignments, Assigns final line
  columns : ∀ item ∈ tests.validationTable, ∀ column ∈ item.header.getD [],
    ∃ subject, env.subject? tests = some subject ∧ ScenarioDecl.Names env subject column

/-- An action that leaves scopes as they are. -/
theorem Sound.runIn_of_scoped {action : Check Unit} {keys : List FindingKey}
    {P : Findings → Unit → Prop} (h : Sound action keys P) (task : Task)
    (htask : task.check env = action) (hscoped : task.isScoped = true) (before : Scopes) :
    Sound (Check.runIn before action) keys fun final done => P final done.1 ∧ done.2 = before := by
  refine (h.runIn before).weaken ?_
  rintro final _ ⟨hpost, state, rfl, rfl⟩
  refine ⟨hpost, ?_⟩
  subst htask
  exact task.scopes_eq_of_isScoped env hscoped state

theorem sound_forM_optionIn {α : Type} {item? : Option α} {f : α → Check Unit}
    {keys : α → List FindingKey} {P : α → Findings → Prop} {before : Scopes}
    (h : ∀ item ∈ item?, Sound (runIn before (f item)) (keys item) fun final done =>
      P item final ∧ done.2 = before) :
    Sound (runIn before (item?.forM f)) (item?.toList.flatMap keys) fun final done =>
      (∀ item ∈ item?, P item final) ∧ done.2 = before := by
  cases item? with
  | none =>
    refine (sound_pureIn _ before).weaken ?_
    rintro _ _ rfl
    exact ⟨nofun, rfl⟩
  | some item =>
    rw [Option.toList_some, List.flatMap_singleton]
    refine (h item rfl).weaken ?_
    rintro final done ⟨hpost, hscopes⟩
    refine ⟨fun other hother => ?_, hscopes⟩
    cases hother
    exact hpost

theorem sound_functionBlocksIn {decl : FunctionDecl} {tests : ScenarioDecl} (before : Scopes) :
    Sound (runIn before (functionBlocks env decl tests))
      (tests.parameters.toList.flatMap (fun block => (Node.assignments .parameters block).keys) ++
        (tests.results.toList.flatMap (fun block => (Node.assignments .results block).keys) ++
        tests.validationTable.toList.flatMap fun item => (Node.validationTable item).keys))
      fun final _ => env.subject? tests = some decl → before = {} → Examined env final tests := by
  have hassignments (role : BlockRole) (before : Scopes) (block? : Option AssignmentBlock) :
      Sound (runIn before (block?.forM (assignments env decl role)))
        (block?.toList.flatMap fun block => (Node.assignments role block).keys) fun final done =>
          (∀ block ∈ block?, ∀ line ∈ block.assignments, Assigns final line) ∧ done.2 = before :=
    sound_forM_optionIn fun block _ => (sound_assignsAll decl role block).runIn_of_scoped
      (.assignments decl role block) rfl rfl before
  refine (hassignments .parameters before tests.parameters).bindIn fun first => ?_
  refine (hassignments .results first.2 tests.results).bindIn fun second => ?_
  have htable (item : ValidationTable) :=
    (@sound_validationTableIn env decl item second.2).and
      ((sound_validationTable decl item).runIn_of_scoped (.validationTable decl item) rfl rfl
        second.2)
  refine (sound_forM_optionIn (P := fun item _ => second.2 = {} →
    ∀ column ∈ item.header.getD [], ScenarioDecl.Names env decl column) fun item _ =>
      (htable item).weaken fun _ _ h => ⟨h.1, h.2.2⟩).weaken ?_
  rintro final _ ⟨hcolumns, _⟩ ⟨hresults, hsecond⟩ ⟨hparameters, hfirst⟩ hsubject rfl
  refine ⟨fun block hblock => ?_, fun item hitem column hcolumn => ⟨decl, hsubject, ?_⟩⟩
  · rcases List.mem_append.1 hblock with hblock | hblock
    · exact hparameters block (Option.mem_toList.1 hblock)
    · exact hresults block (Option.mem_toList.1 hblock)
  · exact hcolumns item hitem (hsecond.trans hfirst) column hcolumn

theorem sound_testedFunctionIn (tests : ScenarioDecl) (before : Scopes) :
    Sound (runIn before (testedFunction env tests.function))
      (tests.inlineFunction?.toList.flatMap fun inner => (Node.function inner).keys) fun _ done =>
        done = (env.subject? tests, before) ∧
          (tests.function.isSome = true → done.1.isSome = true) := by
  refine ((sound_testedFunction tests).runIn before).weaken ?_
  rintro _ _ ⟨⟨_, hsome⟩, state, rfl, rfl⟩
  refine ⟨?_, hsome⟩
  unfold TypeEnv.subject?
  rcases tests.function with _ | ⟨name, reference⟩ | inner
  · rfl
  · unfold testedFunction
    dsimp only
    split <;> rfl
  · exact Prod.ext rfl (Task.scopes_eq_of_isScoped env (.function inner) rfl state)

/-- In no scope but those of its blocks, a scenario with a function under test is examined. -/
theorem sound_scenarioIn {tests : ScenarioDecl} (hsome : tests.function.isSome = true) :
    Sound (runIn {} (scenario env tests)) (Node.scenario tests).keys fun final _ =>
      Examined env final tests := by
  have hsubject : (tests.function.isNone && tests.enumeration.isNone && tests.table.isNone) ≠ true := by
    simp [Option.isNone_eq_false_iff.2 hsome]
  have henumeration (before : Scopes) : Sound (runIn before (tests.enumeration.forM enumeration)) []
      fun _ done => True ∧ done.2 = before := by
    have hinner (inner : EnumDecl) (_ : inner ∈ tests.enumeration) :
        Sound (runIn before (enumeration inner)) ((fun _ => []) inner) fun _ done =>
          True ∧ done.2 = before :=
      @Sound.runIn_of_scoped env _ _ _ (sound_enumeration inner) (.enumeration inner) rfl rfl before
    refine (sound_forM_optionIn hinner).mono ?_ fun _ _ h => ⟨trivial, h.2⟩
    simp
  have htable (before : Scopes) : Sound (runIn before (tests.table.forM (table env)))
      (tests.table.toList.flatMap fun inner => (Node.table inner).keys)
      fun _ done => (∀ inner ∈ tests.table, True) ∧ done.2 = before :=
    sound_forM_optionIn (P := fun _ _ => True) fun inner _ =>
      ((sound_table inner).runIn_of_scoped (.table inner) rfl rfl before).weaken
        fun _ _ h => ⟨trivial, h.2⟩
  unfold scenario
  rw [Node.collect_scenario Node.keys_of_isTyped]
  simp only [List.append_assoc, if_neg hsubject]
  refine (sound_testedFunctionIn tests {}).bindIn fun first => ?_
  refine Sound.mono ((henumeration first.2).bindIn fun second => ?_) (List.Subperm.refl _)
    fun _ _ h => h
  refine (htable second.2).bindIn fun third => ?_
  obtain ⟨function?, scopes⟩ := first
  cases function? with
  | none =>
    refine (sound_pureIn _ third.2).mono List.nil_subperm ?_
    exact fun _ _ _ _ _ hnone => by cases hnone.2 hsome
  | some decl =>
    refine (sound_functionBlocksIn third.2).weaken ?_
    rintro final _ hblocks ⟨_, hthird⟩ ⟨_, hsecond⟩ ⟨hfirst, _⟩
    obtain ⟨hsubject, hscopes⟩ := Prod.mk.inj hfirst
    exact hblocks hsubject.symm (hthird.trans (hsecond.trans hscopes))

theorem sound_examined (item : Declaration) :
    Sound (runIn {} (root env item)) (Node.ofDeclaration item).keys fun final _ =>
      ∀ tests, item = .scenario tests → tests.function.isSome = true → Examined env final tests := by
  have hany := ((sound_root item).runIn {} : Sound (runIn {} (root env item)) _ _)
  cases item with
  | scenario decl =>
    by_cases hsome : decl.function.isSome = true
    · refine (sound_scenarioIn hsome).weaken fun final _ hexamined => ?_
      rintro _ ⟨⟩ _
      exact hexamined
    · refine hany.weaken fun _ _ _ tests htests hfunction => ?_
      cases htests
      exact absurd hfunction hsome
  | _ => exact hany.weaken fun _ _ _ _ htests => by cases htests

end Check

/-! ### Scenarios of a document -/

namespace ScenarioDecl

variable {decl : ScenarioDecl}

theorem mem_blocks_parameters {block : AssignmentBlock} (h : block ∈ decl.parameters) :
    Node.assignments .parameters block ∈ decl.blocks := by
  simp [blocks, Option.mem_def.1 h]

theorem mem_blocks_results {block : AssignmentBlock} (h : block ∈ decl.results) :
    Node.assignments .results block ∈ decl.blocks := by
  simp [blocks, Option.mem_def.1 h]

theorem exists_mem_blocks {block : AssignmentBlock}
    (h : block ∈ decl.parameters.toList ++ decl.results.toList) :
    ∃ role, Node.assignments role block ∈ decl.blocks := by
  rcases List.mem_append.1 h with h | h
  · exact ⟨.parameters, mem_blocks_parameters (Option.mem_toList.1 h)⟩
  · exact ⟨.results, mem_blocks_results (Option.mem_toList.1 h)⟩

/-- In blocks that say nothing there is no expression. -/
theorem SaysNothing.not_mem_walk (h : decl.SaysNothing) {block : Node} (hblock : block ∈ decl.blocks)
    (hwell : block.WellFormed) (item : Expr) : Node.expression item ∉ block.walk := by
  have hnone {node : Node} (hnode : node.expression? = none) (hchildren : node.children = []) :
      Node.expression item ∉ node.walk := by
    rw [Node.walk_eq, hchildren, List.flatMap_nil, List.mem_singleton]
    rintro rfl
    cases hnode
  have hempty : ∀ role assigned, assigned ∈ decl.parameters.toList ++ decl.results.toList →
      Node.expression item ∉ (Node.assignments role assigned).walk := fun role assigned hmem =>
    hnone rfl (by rw [Node.children, h.assignments assigned hmem]; rfl)
  simp only [blocks, List.mem_append, Option.mem_toList, Option.map_eq_some_iff] at hblock hempty
  rcases hblock with (⟨assigned, hmem, rfl⟩ | ⟨assigned, hmem, rfl⟩) | ⟨table, hmem, rfl⟩
  · exact hempty _ assigned (.inl hmem)
  · exact hempty _ assigned (.inr hmem)
  · intro hitem
    rw [Node.walk_eq, List.mem_cons] at hitem
    obtain ⟨row, hrow, hitem⟩ := List.mem_flatMap.1 (hitem.resolve_left (by simp))
    obtain ⟨cells, hcells, rfl⟩ := List.mem_map.1 hrow
    obtain ⟨columns, hheader, hlength⟩ := hwell cells hcells
    have hcolumns := h.columns table hmem
    rw [hheader, Option.getD_some] at hcolumns
    rw [hcolumns, List.length_nil, List.length_eq_zero_iff] at hlength
    exact hnone rfl (by rw [Node.children, hlength]; rfl) hitem

end ScenarioDecl

theorem Document.mem_scenarios {document : Document} {decl : ScenarioDecl} :
    decl ∈ document.scenarios ↔ .scenario decl ∈ document.declarations := by
  unfold scenarios
  rw [List.mem_filterMap]
  constructor
  · rintro ⟨item, hitem, hdecl⟩
    split at hdecl <;> cases hdecl
    exact hitem
  · exact fun h => ⟨_, h, rfl⟩

namespace TypeEnv

variable {env : TypeEnv} {order : List Nat} {log : Log} {decl : ScenarioDecl}
  (hperm : order.Perm (List.range env.document.declarations.length))
  (hnumbers : env.document.numbers.Nodup)
  (hitem : .scenario decl ∈ env.document.declarations)

include hperm hnumbers hitem

/-- Where all that is said about the function under test was checked, there is such a function, or
nothing is said, and no stray case is among it. -/
theorem covered_of_tested (h : decl.Tested env (env.check order log).1) :
    (decl.function.isSome = true ∨ decl.SaysNothing) ∧
      ∀ block ∈ decl.blocks, ∀ node ∈ block.walk, node.strayCases = [] := by
  refine ⟨?_, fun block hblock node hnode => List.eq_nil_iff_forall_not_mem.2 fun stray hstray => ?_⟩
  · by_cases hsome : decl.function.isSome = true
    · exact .inl hsome
    · have hnone : decl.function = none := by simpa using hsome
      refine .inr ⟨fun block hblock => List.eq_nil_iff_forall_not_mem.2 fun line hline => ?_,
        fun item hitem' => List.eq_nil_iff_forall_not_mem.2 fun column hcolumn => ?_⟩
      · obtain ⟨role, hmem⟩ := ScenarioDecl.exists_mem_blocks hblock
        have hwalk : Node.expression line ∈ (Node.assignments role block).walk :=
          Node.mem_walk_of_mem_children (List.mem_map_of_mem hline) (Node.mem_walk_self _)
        have huntested : Node.assignments role block ∈ (Declaration.scenario decl).untested := by
          rwa [Declaration.untested, if_pos (by rw [hnone]; rfl)]
        have hfound := h.typed _ hmem line hwalk
        have hmissing : (env.check order log).1.types.find? line.id = none :=
          find?_check_of_mem_untested hperm hnumbers hitem huntested hwalk
        rw [Findings.type?, hmissing] at hfound
        cases hfound
      · obtain ⟨subject, hsubject, _⟩ := h.columns item hitem' column hcolumn
        rw [subject?, hnone] at hsubject
        cases hsubject
  · obtain ⟨value, hvalue⟩ := Option.isSome_iff_exists.1 (Node.isSome_of_mem_strayCases hstray)
    have hbelow := Node.mem_walk_trans (Node.mem_walk_of_caseValue? hvalue)
      (Node.mem_walk_of_mem_strayCases hstray)
    have hroot : node ∈ (Node.ofDeclaration (.scenario decl)).walk :=
      Node.mem_walk_of_mem_children (ScenarioDecl.mem_children_of_mem_blocks hblock) hnode
    have hfound := h.typed block hblock value (Node.mem_walk_trans hbelow hnode)
    have hmissing : (env.check order log).1.types.find? value.id = none :=
      find?_check_of_mem_strayCases hperm hnumbers hitem hroot hstray hvalue
    rw [Findings.type?, hmissing] at hfound
    cases hfound

/-- In a document without errors, all that is said about a function under test was checked unless
there is a stray case in it. -/
theorem tested_of_covered (herrors : (env.check order log).2.hasErrors = false)
    (hwell : (Node.scenario decl).AllWellFormed)
    (hcovered : decl.function.isSome = true ∨ decl.SaysNothing)
    (hstray : ∀ block ∈ decl.blocks, ∀ node ∈ block.walk, node.strayCases = []) :
    decl.Tested env (env.check order log).1 := by
  have hpart (block : Node) (hblock : block ∈ decl.blocks) : block.AllWellFormed :=
    Node.Everywhere.part hwell (ScenarioDecl.mem_children_of_mem_blocks hblock)
  rcases hcovered with hsome | hnothing
  · have hcolumns := columnsResolve_check hperm hnumbers herrors
    have htyped := post_check Check.sound_blocks hperm hnumbers herrors _ hitem decl rfl hsome hcolumns
    have hexamined := post_checkIn Check.sound_examined hperm hnumbers herrors _ hitem decl rfl hsome
    refine ⟨fun block hblock item hmem => ?_, fun block hblock line hline => ?_, hexamined.columns⟩
    · have hall := (htyped block hblock (hpart block hblock).self).everywhere
        (ScenarioDecl.expression?_of_mem_blocks hblock)
        (Node.ne_body_of_mem_children rfl (ScenarioDecl.mem_children_of_mem_blocks hblock))
        (hpart block hblock).allRegular (hstray block hblock)
      obtain ⟨type, htype, _⟩ := hall _ hmem
      exact Option.isSome_of_eq_some htype
    · obtain ⟨role, hmem⟩ := ScenarioDecl.exists_mem_blocks hblock
      have hassign : line.isAssignment = true := (hpart _ hmem).self line hline
      cases line with
      | assign mark target value =>
        exact ⟨mark, target, value, rfl, hexamined.assigned block hblock _ hline _ _ _ rfl⟩
      | _ => cases hassign
  · refine ⟨fun block hblock item hmem => ?_, fun block hblock line hline => ?_, fun item hitem' => ?_⟩
    · exact absurd hmem (hnothing.not_mem_walk hblock (hpart block hblock).self item)
    · rw [hnothing.assignments block hblock] at hline
      cases hline
    · rw [hnothing.columns item hitem']
      exact nofun

end TypeEnv

/-- In a document that is checked without errors, all that a scenario says about the function under
test was checked exactly if there is such a function, or nothing is said about it, and no case with a
value stands outside of a switch. -/
theorem Dialect.Compiles.tested_iff {dialect : Dialect} {options : CompileOptions}
    {compiled : Compiled} (h : dialect.Compiles options compiled) (hchecks : options.checks = true)
    (herrors : compiled.log.errors = []) {decl : ScenarioDecl}
    (hdecl : decl ∈ compiled.document.scenarios) :
    decl.Tested ⟨compiled.document, dialect.rules⟩ compiled.findings ↔
      (decl.function.isSome = true ∨ decl.SaysNothing) ∧
        ∀ block ∈ decl.blocks, ∀ node ∈ block.walk, node.strayCases = [] := by
  obtain ⟨_, hnumbers, _, order, log, hperm, _, hcheck, herrors⟩ := h.exists_check hchecks herrors
  let env : TypeEnv := ⟨compiled.document, dialect.rules⟩
  have hitem := Document.mem_scenarios.1 hdecl
  have hwell := h.allWellFormed _ hitem
  have hfindings : (env.check order log).1 = compiled.findings := congrArg Prod.fst hcheck
  rw [← show (env.check order log).2 = compiled.log from congrArg Prod.snd hcheck] at herrors
  rw [← hfindings]
  exact ⟨fun htested => env.covered_of_tested hperm hnumbers hitem htested,
    fun ⟨hcovered, hstray⟩ =>
      env.tested_of_covered hperm hnumbers hitem herrors hwell hcovered hstray⟩

namespace Dialect

/-- A scenario with all blocks about the function under test. -/
def testedFunction : List String :=
  ["type Pay", "  number Rate = 1", "function F", "  parameters", "    Pay Given", "  results",
    "    number Tax", "  code", "    Tax = Given.Rate", "scenario S", "  function F", "  parameters",
    "    Given.Rate = 3", "  results", "    Tax = 3", "  validationTable", "    | Given.Rate | Tax |",
    "    | 2 | 1 + 1 |"]

theorem tested_iff_testedFunction :
    ∃ compiled decl, ({} : Dialect).compileLines {} "tested" testedFunction = .ok compiled ∧
      ({} : CompileOptions).checks = true ∧ compiled.log.errors = [] ∧
      decl ∈ compiled.document.scenarios ∧
      (decl.Tested ⟨compiled.document, ({} : Dialect).rules⟩ compiled.findings ↔
        (decl.function.isSome = true ∨ decl.SaysNothing) ∧
          ∀ block ∈ decl.blocks, ∀ node ∈ block.walk, node.strayCases = []) ∧
      decl.Tested ⟨compiled.document, ({} : Dialect).rules⟩ compiled.findings := by
  have hok : (({} : Dialect).compileLines {} "tested" testedFunction).toOption.any (fun compiled =>
      compiled.log.errors.isEmpty && compiled.document.scenarios.any fun decl =>
        decl.function.isSome && decl.blocks.all fun block => block.walk.all fun node =>
          node.strayCases.isEmpty) = true := by decide +kernel
  obtain ⟨compiled, hcompile, hall⟩ := (Option.any_eq_true _ _).1 hok
  have hcompile := compileLines_eq_ok hcompile
  simp only [Bool.and_eq_true, List.isEmpty_iff, List.any_eq_true, List.all_eq_true] at hall
  obtain ⟨herrors, decl, hdecl, hsome, hstray⟩ := hall
  have hiff := Compiles.tested_iff (.lines _ _ hcompile) rfl herrors hdecl
  exact ⟨compiled, decl, hcompile, rfl, herrors, hdecl, hiff, hiff.2 ⟨.inl hsome, hstray⟩⟩

/-- A scenario of an enumeration, with a value for a parameter of no function. -/
def testedEnumeration : List String :=
  ["scenario S", "  enum", "    A", "  parameters", "    X = 1"]

/-- The value has no type, and no error says so. -/
theorem not_tested_testedEnumeration :
    ∃ compiled decl, ({} : Dialect).compileLines {} "tested" testedEnumeration = .ok compiled ∧
      ({} : CompileOptions).checks = true ∧ compiled.log.errors = [] ∧
      decl ∈ compiled.document.scenarios ∧
      ¬ decl.Tested ⟨compiled.document, ({} : Dialect).rules⟩ compiled.findings := by
  have hok : (({} : Dialect).compileLines {} "tested" testedEnumeration).toOption.any
      (fun compiled => compiled.log.errors.isEmpty && compiled.document.scenarios.any fun decl =>
        decl.parameters.any fun block => block.assignments.any fun line =>
          (compiled.findings.type? line).isNone) = true := by decide +kernel
  obtain ⟨compiled, hcompile, hall⟩ := (Option.any_eq_true _ _).1 hok
  simp only [Bool.and_eq_true, List.isEmpty_iff, List.any_eq_true, Option.any_eq_true,
    Option.isNone_iff_eq_none] at hall
  obtain ⟨herrors, decl, hdecl, block, hblock, line, hline, hnone⟩ := hall
  refine ⟨compiled, decl, compileLines_eq_ok hcompile, rfl, herrors, hdecl, fun htested => ?_⟩
  have hmem : Node.assignments .parameters block ∈ decl.blocks :=
    ScenarioDecl.mem_blocks_parameters hblock
  have hsome := htested.typed _ hmem line
    (Node.mem_walk_of_mem_children (List.mem_map_of_mem hline) (Node.mem_walk_self _))
  rw [hnone] at hsome
  cases hsome

end Dialect

end DecisionLang
