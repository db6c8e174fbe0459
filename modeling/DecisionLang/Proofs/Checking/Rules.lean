import DecisionLang.Checking.Expression
import DecisionLang.Proofs.Checking.Derivation
import DecisionLang.Proofs.Checking.Sound
import DecisionLang.Proofs.Tree.Regular

/-!
# Rules of the checker

Each rule of the checker establishes the typing rule for the same kind of expression, if its parts
are checked soundly. Types can only be missing without an error where a column of a table has no
type, which is an error of that table: so what a rule establishes is under the condition that all
columns have one.
-/

namespace DecisionLang

namespace Expr

def keys (whole : Expr) : List FindingKey :=
  whole.checked.flatMap fun item => FindingKey.all item.id

theorem keys_eq (whole : Expr) :
    whole.keys = FindingKey.all whole.id ++ whole.checkedParts.flatMap keys := by
  unfold keys
  rw [checked_eq, List.flatMap_cons, List.flatMap_assoc]

/-- Everything that is checked along with an expression is typed. -/
def AllTyped (env : TypeEnv) (final : Findings) (whole : Expr) : Prop :=
  ∀ item ∈ whole.checked, item.Regular → item.Typed env final

end Expr

namespace Check

/-- An expression has a type, and everything checked along with it is typed. -/
def Found (env : TypeEnv) (final : Findings) (item : Expr) (type : Ty) : Prop :=
  final.type? item = some type ∧ item.AllTyped env final

/-- A type is found for which something holds, if columns have types. -/
def Yields (env : TypeEnv) (P : Findings → Ty → Prop) (final : Findings) (type? : Option Ty) :
    Prop :=
  env.ColumnsResolve → ∃ type, type? = some type ∧ P final type

def Checked (env : TypeEnv) (item : Expr) : Prop :=
  Sound (expression env item) item.keys (Yields env fun final type => Found env final item type)

variable {env : TypeEnv} {P : Findings → Ty → Prop} {final : Findings}

@[simp] theorem yields_none : Yields env P final none ↔ ¬env.ColumnsResolve := by
  simp [Yields]

@[simp] theorem yields_some {type : Ty} :
    Yields env P final (some type) ↔ (env.ColumnsResolve → P final type) := by
  simp [Yields]

theorem sound_none {β : Type} {value : β} {Q : Findings → β → Prop}
    (hQ : ∀ final, ¬env.ColumnsResolve → Q final value) :
    Sound (pure value) [] fun final result => Yields env P final none → Q final result :=
  .pure fun final h => hQ final (yields_none.1 h)

theorem sound_reportIf {α : Type} {condition : Prop} [Decidable condition] {fault : Fault}
    {reference : Reference} {next : Unit → Check α} {keys : List FindingKey}
    {Q : Findings → α → Prop}
    (h : Sound (next ()) keys fun final result => ¬condition → Q final result) :
    Sound (if condition then do let done ← report fault reference; next done else next ())
      keys Q := by
  by_cases hcondition : condition
  · rw [if_pos hcondition]
    exact (sound_report fault reference).bind fun _ => h.weaken fun _ _ _ hfalse => hfalse.elim
  · rw [if_neg hcondition]
    exact h.weaken fun _ _ hpost => hpost hcondition

theorem sound_unless {condition : Prop} [Decidable condition] {fault : Fault}
    {reference : Reference} :
    Sound (if condition then report fault reference else pure ()) [] fun _ _ => ¬condition := by
  by_cases hcondition : condition
  · rw [if_pos hcondition]
    exact (sound_report fault reference).absurd
  · rw [if_neg hcondition]
    exact .pure fun _ => hcondition

theorem sound_expectAssignable (env : TypeEnv) (wanted offered : Ty) (reference : Reference) :
    Sound (expectAssignable env wanted offered reference) [] fun _ _ =>
      env.assignable wanted offered = true := by
  unfold expectAssignable
  split
  · next h => exact .pure fun _ => h
  · exact (sound_report _ _).absurd

/-! ### Parts -/

theorem sound_wanting {item : Expr} (h : Checked env item) (wanted : Ty) (fault : Ty → Fault)
    (reference : Reference) :
    Sound (do
      if let some type ← (partOf env item).check then
        if type ≠ wanted then report (fault type) reference) item.keys fun final _ =>
      env.ColumnsResolve → Found env final item wanted := by
  apply h.bindRest
  intro type?
  cases type? with
  | none => exact sound_none fun _ hcolumns h => absurd h hcolumns
  | some type =>
    apply sound_unless.weaken
    intro final _ htype hfound hcolumns
    rw [← not_not.1 htype]
    exact yields_some.1 hfound hcolumns

theorem sound_checkExactly {item : Expr} (h : Checked env item) (wanted : Ty) :
    Sound ((partOf env item).checkExactly wanted) item.keys fun final _ =>
      env.ColumnsResolve → Found env final item wanted :=
  sound_wanting h wanted (.expressionType wanted) _

theorem sound_checkStored {item : Expr} (h : Checked env item) (wanted? : Option Ty) :
    Sound ((partOf env item).checkStored env wanted?) item.keys fun final _ =>
      env.ColumnsResolve →
        (∀ wanted, wanted? = some wanted → final.Stores env wanted item) ∧ item.AllTyped env final := by
  apply h.bindRest
  intro type?
  cases type? with
  | none =>
    have hnone : Sound (pure () : Check Unit) [] fun final _ =>
        Yields env (fun final type => Found env final item type) final none →
          env.ColumnsResolve →
            (∀ wanted, wanted? = some wanted → final.Stores env wanted item) ∧ item.AllTyped env final :=
      sound_none fun _ hcolumns h => absurd h hcolumns
    cases wanted? <;> exact hnone
  | some offered =>
    cases wanted? with
    | none =>
      refine .pure fun final hfound hcolumns => ?_
      exact ⟨nofun, (yields_some.1 hfound hcolumns).2⟩
    | some wanted =>
      apply (sound_expectAssignable env wanted offered _).weaken
      intro final _ hassignable hfound hcolumns
      obtain ⟨htype, hall⟩ := yields_some.1 hfound hcolumns
      refine ⟨?_, hall⟩
      intro _ hwanted
      cases hwanted
      exact ⟨offered, htype, hassignable⟩

theorem sound_checkAll {items : List Expr} (h : ∀ item ∈ items, Checked env item) :
    Sound (Part.checkAll (items.map (partOf env))) (items.flatMap Expr.keys) fun final _ =>
      env.ColumnsResolve → ∀ item ∈ items, item.AllTyped env final := by
  have hparts : ∀ part ∈ items.map (partOf env), Sound (discard part.check)
      part.expression.keys fun final _ =>
        env.ColumnsResolve → part.expression.AllTyped env final := by
    intro part hpart
    obtain ⟨item, hitem, rfl⟩ := List.mem_map.1 hpart
    apply (h item hitem).discard.weaken
    rintro final _ ⟨type?, hfound⟩ hcolumns
    obtain ⟨_, _, _, hall⟩ := hfound hcolumns
    exact hall
  have hall := sound_forM hparts
  rw [List.flatMap_map] at hall
  apply hall.weaken
  intro final _ hall hcolumns item hitem
  exact hall _ (List.mem_map_of_mem hitem) hcolumns

theorem sound_body {items : List Expr} (h : ∀ item ∈ items, Checked env item) :
    Sound (body (items.map (partOf env))) (items.flatMap Expr.keys) fun final _ =>
      env.ColumnsResolve → ∀ item ∈ items, item.AllTyped env final :=
  sound_inScope (sound_checkAll h)

theorem sound_condition {item : Expr} (h : Checked env item) (keyword : Keyword) :
    Sound (condition keyword (partOf env item)) item.keys fun final _ =>
      env.ColumnsResolve → Found env final item .boolean :=
  sound_wanting h .boolean (.conditionType keyword) _

/-! ### Rules -/

/-- A name that is not declared in a scope has the type that its root leads to, or it is an error. -/
theorem sound_ambientType? (env : TypeEnv) (mark : Mark) (path : NamePath) :
    Sound (do
      let state ← get
      let type? := if state.scopes.contains path.root = true then none else
        (env.rootType? path.root).bind fun root => env.follow? root path.members
      if type?.isNone then report (.unknownVariable path.text) mark.reference
      return type?) [] fun _ type? => ∃ type, type? = some type ∧
        ∃ root, env.rootType? path.root = some root ∧ env.follow? root path.members = some type := by
  apply sound_get.bind
  intro state
  dsimp only
  refine sound_reportIf (.pure fun _ hsome _ => ?_)
  obtain ⟨type, htype⟩ := Option.ne_none_iff_exists'.1 (mt Option.isNone_iff_eq_none.2 hsome)
  refine ⟨type, htype, ?_⟩
  split at htype
  · cases htype
  · exact Option.bind_eq_some_iff.1 htype

theorem sound_pathType? (env : TypeEnv) (mark : Mark) (path : NamePath) :
    Sound (pathType? env mark path) [(.variable, mark.id)]
      (Yields env fun final type => final.Names env mark.id path type) := by
  apply (sound_resolve? env path).bind
  intro resolved?
  cases resolved? with
  | some resolved =>
    apply (sound_recordVariable mark.id resolved).bindRest
    intro _
    refine .pure fun final hrecorded hpath => yields_some.2 fun _ => .inl ?_
    exact ⟨resolved, hrecorded, hpath resolved rfl, rfl⟩
  | none =>
    refine (sound_ambientType? env mark path).mono List.nil_subperm ?_
    rintro final _ ⟨type, htype, hroot⟩ _ _
    exact ⟨type, htype, .inr hroot⟩

theorem sound_binary {left right : Expr} (hleft : Checked env left) (hright : Checked env right)
    (mark : Mark) (operator : Operator) :
    Sound (binary env mark (partOf env left) operator (partOf env right)) (left.keys ++ right.keys)
      (Yields env fun final type =>
        (Expr.binary mark left operator right).HasType env final type ∧
          left.AllTyped env final ∧ right.AllTyped env final) := by
  refine hleft.bind fun left? => hright.bindRest fun right? => ?_
  cases left? with
  | none => exact .pure fun _ _ h => yields_none.2 (yields_none.1 h)
  | some leftType =>
    cases right? with
    | none => exact sound_none fun _ hcolumns _ => yields_none.2 hcolumns
    | some rightType =>
      refine sound_reportIf (.pure fun final hresult hright hleft hcolumns => ?_)
      obtain ⟨htype, hall⟩ := yields_some.1 hleft hcolumns
      obtain ⟨htype', hall'⟩ := yields_some.1 hright hcolumns
      obtain ⟨type, hrule⟩ := Option.ne_none_iff_exists'.1
        (mt Option.isNone_iff_eq_none.2 hresult)
      exact ⟨type, hrule, .binary htype htype' hrule, hall, hall'⟩

/-- An assignment to a target that is known to be one, once both sides are checked. -/
theorem sound_assignment {target value : Expr} (htarget : Checked env target)
    (hvalue : Checked env value) (mark : Mark) :
    Sound (assignment env mark (partOf env target) (partOf env value))
      (target.keys ++ value.keys) (Yields env fun final type =>
        (Expr.assign mark target value).HasType env final type ∧
          target.AllTyped env final ∧ value.AllTyped env final) := by
  unfold assignment
  split
  · refine Sound.mono ((sound_refuse _ _ none).bind fun refused => ?_)
      (List.sublist_append_right target.keys value.keys).subperm fun _ _ h => h
    exact hvalue.discard.bindRest fun _ => .pure fun _ _ hfalse => hfalse.elim
  · refine htarget.bind fun target? => hvalue.bindRest fun value? => ?_
    cases target? with
    | none => exact .pure fun _ _ h => yields_none.2 (yields_none.1 h)
    | some wanted =>
      apply sound_get.bind
      intro state
      split
      · exact (sound_refuse _ _ _).absurd
      · cases value? with
        | none => exact .pure fun _ _ h _ => yields_none.2 (yields_none.1 h)
        | some offered =>
          refine sound_reportIf (.pure fun final hassignable _ hvalue htarget hcolumns => ?_)
          obtain ⟨htype, hall⟩ := yields_some.1 htarget hcolumns
          obtain ⟨htype', hall'⟩ := yields_some.1 hvalue hcolumns
          exact ⟨.void, rfl, .assign htype ⟨offered, htype', by simpa using hassignable⟩, hall,
            hall'⟩

theorem sound_introduce (declared : Declared) (origin : Origin) (type : Ty) :
    Sound (introduce declared origin type) [(.definition, declared.id)] fun final _ =>
      final.definitions.find? declared.id = some type := by
  apply (sound_recordDefinition declared.id type).bindRest
  intro _
  exact (sound_declare _).discard.weaken fun _ _ _ hrecorded => hrecorded

theorem sound_declaration {default : Option Expr} (h : ∀ value ∈ default, Checked env value)
    (declared : Declared) (origin : Origin) :
    Sound (declaration env declared origin (default.map (partOf env)))
      (default.toList.flatMap Expr.keys ++ [(.definition, declared.id)]) fun final _ =>
        env.ColumnsResolve → final.Declares env declared.id declared.type default ∧
          ∀ value ∈ default, value.AllTyped env final := by
  unfold declaration
  dsimp only
  split
  · exact (sound_report _ _).absurd.mono List.nil_subperm fun _ _ h => h
  · cases default with
    | none =>
      cases hwanted : env.resolve? declared.type with
      | none => exact (sound_report _ _).absurd.mono List.nil_subperm fun _ _ h => h
      | some wanted =>
        apply (sound_introduce declared origin wanted).weaken
        intro final _ hrecorded _
        refine ⟨⟨wanted, hrecorded, fun _ h => ?_, nofun⟩, nofun⟩
        exact Option.some.inj (hwanted.symm.trans h)
    | some value =>
      rw [Option.toList_some, List.flatMap_singleton]
      apply (h value rfl).bind
      intro offered?
      cases hwanted : env.resolve? declared.type with
      | none =>
        cases offered? with
        | none =>
          refine Sound.mono (sound_none fun final hcolumns => ?_) List.nil_subperm fun _ _ h => h
          exact fun h => absurd h hcolumns
        | some offered =>
          apply (sound_introduce declared origin offered).weaken
          intro final _ hrecorded hfound hcolumns
          obtain ⟨htype, hall⟩ := yields_some.1 hfound hcolumns
          refine ⟨⟨offered, hrecorded, fun _ h => ?_, ?_⟩, ?_⟩
          · cases hwanted.symm.trans h
          · rintro _ ⟨⟩
            exact ⟨offered, htype, env.assignable_refl offered⟩
          · rintro _ ⟨⟩
            exact hall
      | some wanted =>
        cases offered? with
        | none =>
          apply (sound_introduce declared origin wanted).weaken
          intro final _ _ hnone hcolumns
          exact absurd hcolumns (yields_none.1 hnone)
        | some offered =>
          dsimp only
          split
          · next hassignable =>
            apply (sound_introduce declared origin wanted).weaken
            intro final _ hrecorded hfound hcolumns
            obtain ⟨htype, hall⟩ := yields_some.1 hfound hcolumns
            refine ⟨⟨wanted, hrecorded, fun _ h => ?_, ?_⟩, ?_⟩
            · exact Option.some.inj (hwanted.symm.trans h)
            · rintro _ ⟨⟩
              exact ⟨offered, htype, hassignable⟩
            · rintro _ ⟨⟩
              exact hall
          · exact (sound_report _ _).absurd.mono List.nil_subperm fun _ _ h => h

/-! ### Switches -/

/-- A branch of a switch as the checker takes it apart. -/
def caseOf (env : TypeEnv) (branch : Expr) : Option CasePart :=
  match branch with
  | .case _ value _ => some ⟨value.map (partOf env), partOf env branch⟩
  | _ => none

/-- A branch is typed, and its value has the type of the subject. -/
def BranchFound (env : TypeEnv) (final : Findings) (subject? : Option Ty) (branch : Expr) : Prop :=
  (∀ value ∈ branch.caseValue?, ∀ wanted, subject? = some wanted →
    final.type? value = some wanted) ∧
  ∀ part ∈ branch.branchParts, part.AllTyped env final

theorem sound_case {mark : Mark} {value : Option Expr} {body : List Expr}
    (h : ∀ part ∈ (Expr.case mark value body).branchParts, Checked env part)
    (subject? : Option Ty) (hasDefault : Bool) :
    Sound (case subject? hasDefault
        ⟨value.map (partOf env), partOf env (.case mark value body)⟩)
      ((Expr.case mark value body).branchParts.flatMap Expr.keys) fun final _ =>
        env.ColumnsResolve → BranchFound env final subject? (.case mark value body) := by
  have hbranch : Checked env (.case mark value body) :=
    h _ (List.mem_append_right value.toList (List.mem_singleton_self _))
  have hrest (result : Bool) :
      Sound (do discard (expression env (.case mark value body)); return result)
        (Expr.case mark value body).keys fun final _ =>
          env.ColumnsResolve → (Expr.case mark value body).AllTyped env final := by
    refine hbranch.discard.bindRest fun _ => .pure ?_
    rintro final ⟨type?, hfound⟩ hcolumns
    obtain ⟨_, _, _, hall⟩ := hfound hcolumns
    exact hall
  cases value with
  | none =>
    have hkeys : (Expr.case mark none body).branchParts.flatMap Expr.keys =
        (Expr.case mark none body).keys := by simp [Expr.branchParts]
    rw [hkeys]
    unfold case
    dsimp only [Option.map_none]
    apply sound_reportIf
    refine (hrest true).weaken fun final _ hall _ hcolumns => ⟨nofun, ?_⟩
    intro part hpart
    obtain rfl := List.mem_singleton.1 hpart
    exact hall hcolumns
  | some item =>
    have hkeys : (Expr.case mark (some item) body).branchParts.flatMap Expr.keys =
        item.keys ++ (Expr.case mark (some item) body).keys := by simp [Expr.branchParts]
    rw [hkeys]
    have hitem : Checked env item := h item List.mem_cons_self
    apply hitem.bind
    intro type?
    have hparts {final : Findings} (hall : item.AllTyped env final)
        (hall' : (Expr.case mark (some item) body).AllTyped env final) :
        ∀ part ∈ (Expr.case mark (some item) body).branchParts, part.AllTyped env final := by
      intro part hpart
      rcases List.mem_cons.1 hpart with rfl | hpart
      · exact hall
      · obtain rfl := List.mem_singleton.1 hpart
        exact hall'
    cases type? with
    | none =>
      have hnone := (hrest hasDefault).weaken (R := fun final _ =>
          Yields env (Found env · item) final none → env.ColumnsResolve →
            BranchFound env final subject? (.case mark (some item) body)) fun _ _ _ hnone hcolumns =>
        absurd hcolumns (yields_none.1 hnone)
      cases subject? <;> exact hnone
    | some type =>
      cases subject? with
      | none =>
        apply (hrest hasDefault).weaken
        intro final _ hbranch hvalue hcolumns
        exact ⟨nofun, hparts (yields_some.1 hvalue hcolumns).2 (hbranch hcolumns)⟩
      | some wanted =>
        apply sound_reportIf
        apply (hrest hasDefault).weaken
        intro final _ hbranch hsame hvalue hcolumns
        obtain ⟨htype, hall⟩ := yields_some.1 hvalue hcolumns
        refine ⟨?_, hparts hall (hbranch hcolumns)⟩
        rintro _ ⟨⟩ _ ⟨⟩
        rw [← not_not.1 hsame]
        exact htype

theorem sound_cases {cases : List Expr}
    (h : ∀ branch ∈ cases, ∀ part ∈ branch.branchParts, Checked env part) (subject? : Option Ty)
    (hasDefault : Bool) :
    Sound ((cases.filterMap (caseOf env)).foldlM (case subject?) hasDefault)
      (cases.flatMap fun branch => branch.branchParts.flatMap Expr.keys) fun final _ =>
        env.ColumnsResolve → ∀ branch ∈ cases, BranchFound env final subject? branch := by
  induction cases generalizing hasDefault with
  | nil => exact .pure fun _ _ => nofun
  | cons branch cases ih =>
    have ih := ih fun other hother => h other (List.mem_cons_of_mem _ hother)
    rw [List.flatMap_cons]
    have hhead := h branch List.mem_cons_self
    cases branch with
    | case mark value body =>
      apply (sound_case hhead subject? hasDefault).bind
      intro hasDefault
      apply (ih hasDefault).weaken
      intro final _ htail hbranch hcolumns other hother
      rcases List.mem_cons.1 hother with rfl | hother
      · exact hbranch hcolumns
      · exact htail hcolumns other hother
    | _ =>
      apply (ih hasDefault).weaken
      intro final _ htail hcolumns other hother
      rcases List.mem_cons.1 hother with rfl | hother
      · exact ⟨nofun, nofun⟩
      · exact htail hcolumns other hother

theorem sound_switch {subject : Expr} {cases : List Expr} (hsubject : Checked env subject)
    (hcases : ∀ branch ∈ cases, ∀ part ∈ branch.branchParts, Checked env part) (mark : Mark) :
    Sound (switch (partOf env subject) (cases.filterMap (caseOf env)))
      (subject.keys ++ cases.flatMap fun branch => branch.branchParts.flatMap Expr.keys)
      (Yields env fun final type =>
        (Expr.switch mark subject cases).HasType env final type ∧ subject.AllTyped env final ∧
          ∀ branch ∈ cases, ∀ part ∈ branch.branchParts, part.AllTyped env final) := by
  apply hsubject.bind
  intro subject?
  refine (sound_cases hcases subject? false).discard.bindRest fun _ => .pure ?_
  rintro final ⟨_, hbranches⟩ hfound hcolumns
  obtain ⟨type, rfl, htype, hall⟩ := hfound hcolumns
  have hbranches := hbranches hcolumns
  refine ⟨.void, rfl, .switch htype fun branch hbranch value hvalue => ?_, hall, ?_⟩
  · exact (hbranches branch hbranch).1 value hvalue type rfl
  · exact fun branch hbranch => (hbranches branch hbranch).2

end Check

end DecisionLang
