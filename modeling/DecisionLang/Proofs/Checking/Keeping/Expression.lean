import DecisionLang.Proofs.Checking.Keeping
import DecisionLang.Proofs.Checking.Uses

/-!
# Expressions that are values

Each rule of the checker finds a type for every part that it needs the value of, and reports a part
that has none, except where it takes over the type of a part. So if no type is taken over from a
statement, no statement is used as a value: main statement `Check.weighed_expression`.
-/

namespace DecisionLang.Check

def FindsValue (type? : Option Ty) : Prop := ∃ type, type? = some type ∧ type ≠ .void

theorem not_findsValue_none : ¬FindsValue none := by
  rintro ⟨_, ⟨⟩, _⟩

theorem FindsValue.ne_void {type : Ty} (h : FindsValue (some type)) : type ≠ .void := by
  obtain ⟨_, ⟨⟩, hvoid⟩ := h
  exact hvoid

/-- An expression has a type, which is `void` for statements and for nothing else. -/
def Shows (type? : Option Ty) (item : Expr) : Prop :=
  ∃ type, type? = some type ∧ (type = .void ↔ item.ungrouped.isStatement = true)

theorem Shows.isValue {type : Ty} {item : Expr} (h : Shows (some type) item)
    (htype : type ≠ .void) : item.IsValue := by
  obtain ⟨_, ⟨⟩, hvoid⟩ := h
  exact Bool.eq_false_iff.2 fun hstatement => htype (hvoid.2 hstatement)

theorem Shows.ne_void {type : Ty} {item : Expr} (h : Shows (some type) item)
    (hitem : item.IsValue) : type ≠ .void := by
  obtain ⟨_, ⟨⟩, hvoid⟩ := h
  intro htype
  cases hitem.symm.trans (hvoid.1 htype)

theorem not_shows_none {item : Expr} : ¬Shows none item := by
  rintro ⟨_, ⟨⟩, _⟩

/-- The checking of an expression finds its type, and no statement is used as a value in it. -/
def Weighed (env : TypeEnv) (item : Expr) : Prop :=
  ∀ given, Keeps given (expression env item) fun type? => Shows type? item ∧ item.UsesValues

/-- A part is used as a value, and it is one. -/
def Weighs (item : Expr) : Prop := item.IsValue ∧ item.UsesValues

variable {env : TypeEnv} {given : Prop} {item : Expr} {items : List Expr}

/-! ### Parts -/

theorem keeps_wanting (h : Weighed env item) {wanted : Ty} (hwanted : wanted ≠ .void)
    (fault : Ty → Fault) (reference : Reference) :
    Keeps given (do
      if let some type ← (partOf env item).check then
        if type ≠ wanted then report (fault type) reference) fun _ => Weighs item := by
  refine (h given).bind fun type? => ?_
  cases type? with
  | none => exact .pure fun hgiven => (not_shows_none hgiven.2.1).elim
  | some type =>
    refine keeps_unless.weaken fun hgiven _ hsame => ⟨hgiven.2.1.isValue ?_, hgiven.2.2⟩
    rwa [not_not.1 hsame]

theorem keeps_checkExactly (h : Weighed env item) {wanted : Ty} (hwanted : wanted ≠ .void) :
    Keeps given ((partOf env item).checkExactly wanted) fun _ => Weighs item :=
  keeps_wanting h hwanted (.expressionType wanted) _

theorem keeps_expectAssignable (env : TypeEnv) (wanted offered : Ty) (reference : Reference) :
    Keeps given (expectAssignable env wanted offered reference) fun _ =>
      env.assignable wanted offered = true :=
  keeps_of_sound env (sound_expectAssignable env wanted offered reference)
    (Rerun.repeats_expectAssignable wanted.among_true offered.among_true reference)

theorem keeps_checkStored (h : Weighed env item) {wanted? : Option Ty}
    (hwanted : given → FindsValue wanted?) :
    Keeps given ((partOf env item).checkStored env wanted?) fun _ => Weighs item := by
  refine (h given).bind fun type? => ?_
  cases type? with
  | none =>
    have hnone : Keeps (given ∧ Shows none item ∧ item.UsesValues) (pure () : Check Unit)
        fun _ => Weighs item := .pure fun hgiven => (not_shows_none hgiven.2.1).elim
    cases wanted? <;> exact hnone
  | some offered =>
    cases wanted? with
    | none => exact .pure fun hgiven => (not_findsValue_none (hwanted hgiven.1)).elim
    | some wanted =>
      refine (keeps_expectAssignable env wanted offered _).weaken fun hgiven _ hassignable => ?_
      have hvoid := (hwanted hgiven.1).ne_void
      exact ⟨hgiven.2.1.isValue (TypeEnv.ne_void_of_assignable hvoid hassignable), hgiven.2.2⟩

theorem keeps_checkAll (h : ∀ item ∈ items, Weighed env item) :
    Keeps given (Part.checkAll (items.map (partOf env))) fun _ => ∀ item ∈ items, item.UsesValues := by
  have hparts : ∀ part ∈ items.map (partOf env),
      Keeps given (discard part.check) fun _ => part.expression.UsesValues := by
    refine List.forall_mem_map.2 fun item hitem => ?_
    exact (h item hitem given).discard.weaken fun _ _ ⟨_, _, huses⟩ => huses
  refine (keeps_forM hparts).weaken fun _ _ hall item hitem => ?_
  exact hall _ (List.mem_map_of_mem hitem)

theorem keeps_body (h : ∀ item ∈ items, Weighed env item) :
    Keeps given (body (items.map (partOf env))) fun _ => ∀ item ∈ items, item.UsesValues :=
  keeps_inScope (keeps_checkAll h)

theorem keeps_condition (h : Weighed env item) (keyword : Keyword) :
    Keeps given (condition keyword (partOf env item)) fun _ => Weighs item :=
  keeps_wanting h (Ty.primitive_ne_void .boolean) (.conditionType keyword) _

/-! ### Rules -/

theorem keeps_pathType? (env : TypeEnv) (mark : Mark) (path : NamePath) :
    Keeps given (pathType? env mark path) FindsValue := by
  refine (keeps_resolve? env path).bind fun resolved? => ?_
  cases resolved? with
  | some resolved =>
    refine (keeps_recordVariable mark.id fun hgiven => hgiven.2 resolved rfl).bind fun _ => ?_
    exact .pure fun hgiven => ⟨resolved.type, rfl, hgiven.1.2 resolved rfl⟩
  | none =>
    refine keeps_get.bind fun state => keeps_reportIf (.pure fun hgiven => ?_)
    obtain ⟨type, htype⟩ := Option.ne_none_iff_exists'.1
      (mt Option.isNone_iff_eq_none.2 hgiven.2)
    refine ⟨type, htype, ?_⟩
    split at htype
    · cases htype
    · obtain ⟨root, hroot, hfollow⟩ := Option.bind_eq_some_iff.1 htype
      exact TypeEnv.follow?_ne_void (TypeEnv.rootType?_ne_void hroot) hfollow

theorem keeps_binary {left right : Expr} (hleft : Weighed env left) (hright : Weighed env right)
    (mark : Mark) (operator : Operator) :
    Keeps given (binary env mark (partOf env left) operator (partOf env right)) fun type? =>
      FindsValue type? ∧ Weighs left ∧ Weighs right := by
  refine (hleft given).bind fun left? => (hright _).bind fun right? => ?_
  cases left? with
  | none => exact .pure fun hgiven => (not_shows_none hgiven.1.2.1).elim
  | some leftType =>
    cases right? with
    | none => exact .pure fun hgiven => (not_shows_none hgiven.2.1).elim
    | some rightType =>
      refine keeps_reportIf (.pure ?_)
      rintro ⟨⟨⟨_, hleft, husesLeft⟩, hright, husesRight⟩, hresult⟩
      obtain ⟨type, hrule⟩ := Option.ne_none_iff_exists'.1
        (mt Option.isNone_iff_eq_none.2 hresult)
      obtain ⟨hleftType, hrightType, htype⟩ := OperatorRules.ne_void_of_result? hrule
      exact ⟨⟨type, hrule, htype⟩, ⟨hleft.isValue hleftType, husesLeft⟩,
        ⟨hright.isValue hrightType, husesRight⟩⟩

/-- A target is a name or a path, so it has a value. -/
theorem isValue_of_isTarget (h : (partOf env item).isTarget = true) : item.IsValue := by
  cases item <;> first | rfl | cases h

theorem keeps_assignment {target value : Expr} (htarget : Weighed env target)
    (hvalue : Weighed env value) (mark : Mark) :
    Keeps given (assignment env mark (partOf env target) (partOf env value)) fun type? =>
      type? = some .void ∧ target.UsesValues ∧ Weighs value := by
  unfold assignment
  split
  · refine (keeps_refuse _ _ none).bind fun refused => ?_
    exact (hvalue _).discard.bind fun _ => .pure fun hgiven => hgiven.1.2.elim
  · next hplace =>
    have htargetValue : target.IsValue := isValue_of_isTarget (by simpa using hplace)
    refine (htarget given).bind fun target? => (hvalue _).bind fun value? => ?_
    cases target? with
    | none => exact .pure fun hgiven => (not_shows_none hgiven.1.2.1).elim
    | some wanted =>
      refine keeps_get.bind fun state => ?_
      split
      · exact (keeps_refuse _ _ _).absurd
      · cases value? with
        | none => exact .pure fun hgiven => (not_shows_none hgiven.1.2.1).elim
        | some offered =>
          refine keeps_reportIf (.pure ?_)
          rintro ⟨⟨⟨⟨_, htarget, husesTarget⟩, hvalue, husesValue⟩, _⟩, hassignable⟩
          have hoffered := TypeEnv.ne_void_of_assignable (htarget.ne_void htargetValue)
            (by simpa using hassignable)
          exact ⟨rfl, husesTarget, hvalue.isValue hoffered, husesValue⟩

theorem keeps_introduce (declared : Declared) (origin : Origin) {type : Ty}
    (h : given → type ≠ .void) : Keeps given (introduce declared origin type) fun _ => True := by
  refine (keeps_recordDefinition declared.id h).bind fun _ => ?_
  exact (keeps_declare fun hgiven => h hgiven.1).discard.weaken fun _ _ _ => trivial

/-- A declaration without a written type takes over that of its default value. -/
theorem keeps_declaration {default : Option Expr} (h : ∀ value ∈ default, Weighed env value)
    (declared : Declared) (origin : Origin)
    (hinferred : declared.type = .implicit → ∀ value ∈ default, value.IsValue) :
    Keeps given (declaration env declared origin (default.map (partOf env))) fun _ =>
      ∀ value ∈ default, Weighs value := by
  unfold declaration
  dsimp only
  split
  · exact (keeps_report _ _).absurd
  · next hwritten =>
    cases default with
    | none =>
      cases hwanted : env.resolve? declared.type with
      | none => exact (keeps_report _ _).absurd
      | some wanted =>
        refine (keeps_introduce declared origin fun _ => ?_).weaken fun _ _ _ => nofun
        exact TypeEnv.resolve?_ne_void hwanted
    | some value =>
      refine (h value rfl given).bind fun offered? => ?_
      cases offered? with
      | none =>
        have hnone {action : Check Unit} (hcontinues : Keeps False action fun _ => True) :
            Keeps (given ∧ Shows none value ∧ value.UsesValues) action
              fun _ => ∀ item ∈ some value, Weighs item :=
          (hcontinues.of_given fun hgiven => not_shows_none hgiven.2.1).weaken
            fun hgiven => (not_shows_none hgiven.2.1).elim
        cases env.resolve? declared.type with
        | none => exact hnone (.pure False.elim)
        | some wanted => exact hnone (keeps_introduce declared origin False.elim)
      | some offered =>
        cases hwanted : env.resolve? declared.type with
        | none =>
          have himplicit : declared.type = .implicit := by simpa [hwanted] using hwritten
          have hvalue := hinferred himplicit value rfl
          refine (keeps_introduce declared origin fun hgiven => ?_).weaken fun hgiven _ _ => ?_
          · exact hgiven.2.1.ne_void hvalue
          · rintro _ ⟨⟩
            exact ⟨hvalue, hgiven.2.2⟩
        | some wanted =>
          have hvoid := TypeEnv.resolve?_ne_void hwanted
          dsimp only
          split
          · next hassignable =>
            refine (keeps_introduce declared origin fun _ => hvoid).weaken fun hgiven _ _ => ?_
            rintro _ ⟨⟩
            exact ⟨hgiven.2.1.isValue (TypeEnv.ne_void_of_assignable hvoid hassignable), hgiven.2.2⟩
          · exact (keeps_report _ _).absurd

/-! ### Switches -/

/-- The value of a branch is one, and no statement is used as a value in the branch. -/
def BranchWeighs (branch : Expr) : Prop :=
  (∀ value ∈ branch.caseValue?, value.IsValue) ∧ ∀ part ∈ branch.branchParts, part.UsesValues

theorem keeps_case {mark : Mark} {value : Option Expr} {lines : List Expr}
    (h : ∀ part ∈ (Expr.case mark value lines).branchParts, Weighed env part)
    {subject? : Option Ty} (hsubject : given → FindsValue subject?) (hasDefault : Bool) :
    Keeps given (case subject? hasDefault
        ⟨value.map (partOf env), partOf env (.case mark value lines)⟩) fun _ =>
      BranchWeighs (.case mark value lines) := by
  have hbranch : Weighed env (.case mark value lines) :=
    h _ (List.mem_append_right value.toList (List.mem_singleton_self _))
  have hrest (given : Prop) (result : Bool) :
      Keeps given (do discard (expression env (.case mark value lines)); return result)
        fun _ => (Expr.case mark value lines).UsesValues :=
    (hbranch given).discard.bind fun _ => .pure fun ⟨_, _, _, huses⟩ => huses
  cases value with
  | none =>
    unfold case
    dsimp only [Option.map_none]
    apply keeps_reportIf
    exact (hrest _ true).weaken fun _ _ huses => ⟨nofun, List.forall_mem_singleton.2 huses⟩
  | some item =>
    refine (h item List.mem_cons_self given).bind fun type? => ?_
    cases type? with
    | none =>
      have hnone := (hrest (given ∧ Shows none item ∧ item.UsesValues) hasDefault).weaken
        (Q := fun _ => BranchWeighs (.case mark (some item) lines))
        fun hgiven => (not_shows_none hgiven.2.1).elim
      cases subject? <;> exact hnone
    | some type =>
      cases subject? with
      | none =>
        exact (hrest _ hasDefault).weaken fun hgiven =>
          (not_findsValue_none (hsubject hgiven.1)).elim
      | some subject =>
        apply keeps_reportIf
        apply (hrest _ hasDefault).weaken
        rintro ⟨⟨hgiven, hitem, husesItem⟩, hsame⟩ _ huses
        refine ⟨?_, List.forall_mem_cons.2 ⟨husesItem, List.forall_mem_singleton.2 huses⟩⟩
        rintro _ ⟨⟩
        refine hitem.isValue ?_
        rw [not_not.1 hsame]
        exact (hsubject hgiven).ne_void

theorem keeps_cases {cases : List Expr}
    (h : ∀ branch ∈ cases, ∀ part ∈ branch.branchParts, Weighed env part)
    {subject? : Option Ty} (hsubject : given → FindsValue subject?) (hasDefault : Bool) :
    Keeps given ((cases.filterMap (caseOf env)).foldlM (case subject?) hasDefault) fun _ =>
      ∀ branch ∈ cases, BranchWeighs branch := by
  induction cases generalizing hasDefault given with
  | nil => exact .pure fun _ => nofun
  | cons branch cases ih =>
    obtain ⟨hhead, htail⟩ := List.forall_mem_cons.1 h
    cases branch with
    | case mark value lines =>
      refine (keeps_case hhead hsubject hasDefault).bind fun hasDefault => ?_
      refine (ih htail (fun hgiven => hsubject hgiven.1) hasDefault).weaken ?_
      exact fun hgiven _ hrest => List.forall_mem_cons.2 ⟨hgiven.2, hrest⟩
    | _ =>
      refine (ih htail hsubject hasDefault).weaken fun _ _ hrest => ?_
      exact List.forall_mem_cons.2 ⟨⟨nofun, nofun⟩, hrest⟩

/-- A switch takes over the type of its subject. -/
theorem keeps_switch {subject : Expr} {cases : List Expr} (hsubject : Weighed env subject)
    (hcases : ∀ branch ∈ cases, ∀ part ∈ branch.branchParts, Weighed env part)
    (hinferred : subject.IsValue) :
    Keeps given (switch (partOf env subject) (cases.filterMap (caseOf env))) fun type? =>
      type? = some .void ∧ Weighs subject ∧ ∀ branch ∈ cases, BranchWeighs branch := by
  refine (hsubject given).bind fun subject? => ?_
  have hfinds (hgiven : given ∧ Shows subject? subject ∧ subject.UsesValues) :
      FindsValue subject? := by
    obtain ⟨type, rfl, hvoid⟩ := hgiven.2.1
    exact ⟨type, rfl, Shows.ne_void ⟨type, rfl, hvoid⟩ hinferred⟩
  refine (keeps_cases hcases hfinds false).discard.bind fun _ => .pure ?_
  rintro ⟨⟨_, _, huses⟩, _, hbranches⟩
  exact ⟨rfl, ⟨hinferred, huses⟩, hbranches⟩

/-! ### Objects and tables -/

theorem keeps_sameNamedMembers (env : TypeEnv) (flow : Flow) (object : Ty)
    (reference : Reference) :
    Keeps given (sameNamedMembers env flow object reference) fun _ => True :=
  keeps_of_sound env (sound_sameNamedMembers flow object reference)
    (Rerun.repeats_sameNamedMembers flow object.among_true reference)

theorem keeps_make (hcolumns : env.ColumnsResolve) (mark : Mark) (making : Making) (type : NamePath)
    (typeReference : Reference) :
    Keeps given (make env mark making type typeReference) FindsValue := by
  have hsound : Sound (make env mark making type typeReference) [] fun _ => FindsValue := by
    refine (sound_make mark making type typeReference).weaken fun final _ hyields => ?_
    obtain ⟨object, rfl, htype⟩ := hyields hcolumns
    cases htype with
    | make _ hobject => exact ⟨object, rfl, Ty.ne_void_of_isObject hobject⟩
  exact keeps_of_sound env hsound (Rerun.repeats_make making trivial typeReference)

theorem keeps_extract (h : Weighed env item) (mark : Mark) :
    Keeps given (extract env mark (partOf env item)) fun type? => type? = some .void ∧ Weighs item := by
  refine (h given).bind fun object? => ?_
  cases object? with
  | none => exact .pure fun hgiven => (not_shows_none hgiven.2.1).elim
  | some object =>
    dsimp only
    split
    · exact (keeps_refuse _ _ _).absurd
    · next hobject =>
      refine (keeps_sameNamedMembers env _ _ _).bind fun _ => .pure fun hgiven => ⟨rfl, ?_⟩
      obtain ⟨⟨_, hshows, huses⟩, _⟩ := hgiven
      exact ⟨hshows.isValue (Ty.ne_void_of_isObject (by simpa using hobject)), huses⟩

theorem Fits.isValue {table : TableDecl} {name : ColumnName} {type? : Option Ty}
    (h : Fits env table name type?) (hitem : Shows type? item) : item.IsValue := by
  obtain ⟨wanted, ⟨_, _, _, hwanted⟩, hassignable⟩ := h
  obtain ⟨type, rfl, hvoid⟩ := hitem
  refine Shows.isValue ⟨type, rfl, hvoid⟩ ?_
  exact TypeEnv.ne_void_of_assignable (TypeEnv.resolve?_ne_void hwanted) (hassignable type rfl)

theorem ne_void_of_resultColumn {table : TableDecl} {name? : Option ColumnName} {type : Ty}
    (h : name?.elim (type = .generated table.name .row) (env.ColumnHas table · type)) :
    type ≠ .void := by
  cases name? with
  | none =>
    obtain rfl : type = .generated table.name .row := h
    nofun
  | some name =>
    obtain ⟨_, _, _, htype⟩ := h
    exact TypeEnv.resolve?_ne_void htype

section LookUp

variable {discriminator : Option Expr} {value : Expr} {discriminatorColumn : Option ColumnName}

theorem keeps_lookUpColumns (hcolumns : env.ColumnsResolve)
    (hregular : discriminator.isSome = discriminatorColumn.isSome) {decl : TableDecl}
    (hdecl : .table decl ∈ env.document.declarations) (table : String) (tableReference : Reference)
    (searchColumn : ColumnName) (resultColumn : Option ColumnName)
    {discriminator? value? : Option Ty} (hvalue : given → Shows value? value)
    (hdiscriminator : given → ∀ item ∈ discriminator, Shows discriminator? item) :
    Keeps given (lookUpColumns env ⟨table, tableReference, discriminator.map (partOf env),
        partOf env value, discriminatorColumn, searchColumn, resultColumn⟩ decl discriminator?
        value?) fun type? =>
      FindsValue type? ∧ (∀ item ∈ discriminator, item.IsValue) ∧ value.IsValue := by
  have hrefers : (Node.table decl).RefersAmong fun _ => True := fun _ _ _ _ => trivial
  have hamong (type? : Option Ty) : (Rerun.behind env {}).Typed type? := fun type _ => type.among_true
  refine (keeps_of_sound env ((sound_lookUpColumns hdecl discriminator? value?).weaken
    fun _ _ h => h hcolumns) (Rerun.repeats_lookUpColumns table tableReference discriminatorColumn
      searchColumn resultColumn hrefers trivial (hamong _) (hamong _))).weaken ?_
  rintro hgiven _ ⟨hsearch, hpair, type, rfl, hresult⟩
  refine ⟨⟨type, rfl, ne_void_of_resultColumn hresult⟩, fun item hitem => ?_,
    hsearch.isValue (hvalue hgiven)⟩
  rw [Option.mem_def.1 hitem] at hregular
  obtain ⟨column, hcolumn⟩ := Option.isSome_iff_exists.1 hregular.symm
  refine (hpair column hcolumn ?_).isValue (hdiscriminator hgiven item hitem)
  rw [Option.mem_def.1 hitem]
  rfl

theorem keeps_lookUpRest (hcolumns : env.ColumnsResolve)
    (hregular : discriminator.isSome = discriminatorColumn.isSome) (h : Weighed env value)
    (table : String) (tableReference : Reference) (searchColumn : ColumnName)
    (resultColumn : Option ColumnName) {discriminator? : Option Ty}
    (hdiscriminator : given → ∀ item ∈ discriminator, Shows discriminator? item) :
    Keeps given (lookUpRest env ⟨table, tableReference, discriminator.map (partOf env),
        partOf env value, discriminatorColumn, searchColumn, resultColumn⟩ discriminator?)
      fun type? =>
      FindsValue type? ∧ (∀ item ∈ discriminator, item.IsValue) ∧ Weighs value := by
  unfold lookUpRest
  refine (h given).bind fun value? => ?_
  split
  · exact (keeps_refuse _ _ _).absurd
  · next decl hdecl =>
    refine (keeps_lookUpColumns hcolumns hregular (Document.mem_declarations_of_table? hdecl).1
      table tableReference searchColumn resultColumn (fun hgiven => hgiven.2.1)
      fun hgiven => hdiscriminator hgiven.1).weaken ?_
    rintro ⟨_, _, huses⟩ _ ⟨htype, hdiscriminator, hvalue⟩
    exact ⟨htype, hdiscriminator, hvalue, huses⟩

theorem keeps_lookUp (hcolumns : env.ColumnsResolve)
    (hregular : discriminator.isSome = discriminatorColumn.isSome)
    (hdiscriminator : ∀ item ∈ discriminator, Weighed env item) (hvalue : Weighed env value)
    (table : String) (tableReference : Reference) (searchColumn : ColumnName)
    (resultColumn : Option ColumnName) :
    Keeps given (lookUp env ⟨table, tableReference, discriminator.map (partOf env),
        partOf env value, discriminatorColumn, searchColumn, resultColumn⟩) fun type? =>
      FindsValue type? ∧ (∀ item ∈ discriminator, Weighs item) ∧ Weighs value := by
  cases discriminator with
  | none =>
    refine (keeps_lookUpRest hcolumns hregular hvalue table tableReference searchColumn
      resultColumn fun _ => nofun).weaken ?_
    exact fun _ _ ⟨htype, _, hvalue⟩ => ⟨htype, nofun, hvalue⟩
  | some item =>
    refine (hdiscriminator item rfl given).bind fun discriminator? => ?_
    refine (keeps_lookUpRest hcolumns hregular hvalue table tableReference searchColumn
      resultColumn ?_).weaken ?_
    · rintro hgiven _ ⟨⟩
      exact hgiven.2.1
    · rintro ⟨_, _, huses⟩ _ ⟨htype, hitem, hvalue⟩
      refine ⟨htype, ?_, hvalue⟩
      rintro _ ⟨⟩
      exact ⟨hitem item rfl, huses⟩

end LookUp

/-! ### Calls -/

theorem weighs_of_isSpread (h : (partOf env item).isSpread = true) : Weighs item := by
  cases item with
  | spread =>
    refine ⟨rfl, Expr.allChecked_iff.2 ⟨nofun, nofun⟩⟩
  | _ => cases h

theorem keeps_declaredArgument (h : Weighed env item) (mark : Mark) (function : String) :
    Keeps given (declaredCall env mark function [partOf env item]) fun type? =>
      FindsValue type? ∧ Weighs item := by
  have hresult : FindsValue (some (.generated function .results)) := ⟨_, rfl, nofun⟩
  change Keeps given (if (partOf env item).isSpread = true then do
      recordType item.id (.generated function .parameters)
      sameNamedMembers env .intoMember (.generated function .parameters) item.reference
      return some (Ty.generated function .results)
    else do
      (partOf env item).checkStored env (some (.generated function .parameters))
      return some (Ty.generated function .results)) _
  split
  · next hspread =>
    refine (keeps_recordType item.id _).bind fun _ => ?_
    refine (keeps_sameNamedMembers env _ _ _).bind fun _ => .pure fun _ => ?_
    exact ⟨hresult, weighs_of_isSpread hspread⟩
  · have hparameters : FindsValue (some (.generated function .parameters)) := ⟨_, rfl, nofun⟩
    refine (keeps_checkStored h fun _ => hparameters).bind fun _ => .pure fun hgiven => ?_
    exact ⟨hresult, hgiven.2⟩

theorem keeps_declaredCall (h : ∀ item ∈ items, Weighed env item) (mark : Mark)
    (function : String) :
    Keeps given (declaredCall env mark function (items.map (partOf env))) fun type? =>
      FindsValue type? ∧ ∀ item ∈ items, Weighs item := by
  match items with
  | [] => exact .pure fun _ => ⟨⟨_, rfl, nofun⟩, nofun⟩
  | [item] =>
    refine (keeps_declaredArgument (h item List.mem_cons_self) mark function).weaken ?_
    exact fun _ _ ⟨htype, hitem⟩ => ⟨htype, List.forall_mem_singleton.2 hitem⟩
  | first :: second :: rest =>
    exact (keeps_checkAll h).bind fun _ => (keeps_refuse _ _ _).absurd

theorem keeps_checkParameters (h : ∀ item ∈ items, Weighed env item) (parameters : List Primitive) :
    Keeps given (((items.map (partOf env)).zip parameters).forM fun (argument, kind) =>
        argument.checkExactly (.primitive kind)) fun _ =>
      ∀ item ∈ items.take parameters.length, Weighs item := by
  induction items generalizing parameters given with
  | nil =>
    rw [List.take_nil]
    exact .pure fun _ => nofun
  | cons item items ih =>
    cases parameters with
    | nil => exact .pure fun _ => nofun
    | cons kind parameters =>
      obtain ⟨hitem, hitems⟩ := List.forall_mem_cons.1 h
      refine (keeps_checkExactly hitem (Ty.primitive_ne_void kind)).bind fun _ => ?_
      exact (ih hitems parameters).weaken fun hgiven _ hrest =>
        List.forall_mem_cons.2 ⟨hgiven.2, hrest⟩

theorem keeps_libraryCall (h : ∀ item ∈ items, Weighed env item) (mark : Mark)
    (library : LibraryFunction) :
    Keeps given (libraryCall mark library (items.map (partOf env))) fun type? =>
      FindsValue type? ∧ ∀ item ∈ items, Weighs item := by
  have hsurplus : ∀ item ∈ items.drop library.parameters.length, Weighed env item :=
    fun item hitem => h item (List.mem_of_mem_drop hitem)
  unfold libraryCall
  dsimp only
  rw [← List.map_drop, List.length_map]
  refine (keeps_checkAll hsurplus).bind fun _ => ?_
  apply keeps_reportIf
  refine (keeps_checkParameters h library.parameters).bind fun _ => .pure fun hgiven => ?_
  obtain ⟨⟨_, hlength⟩, hitems⟩ := hgiven
  rw [← not_not.1 hlength, List.take_length] at hitems
  exact ⟨⟨_, rfl, nofun⟩, hitems⟩

theorem keeps_call (h : ∀ item ∈ items, Weighed env item) (mark : Mark) (function : String) :
    Keeps given (call env mark function (items.map (partOf env))) fun type? =>
      FindsValue type? ∧ ∀ item ∈ items, Weighs item := by
  unfold call
  split
  · exact keeps_declaredCall h mark function
  · split
    · next library _ => exact keeps_libraryCall h mark library
    · exact (keeps_checkAll h).bind fun _ => (keeps_refuse _ _ _).absurd

theorem keeps_indexed (h : Weighed env item) (mark : Mark) (table : String) :
    Keeps given (indexed env mark table (partOf env item)) fun type? =>
      FindsValue type? ∧ Weighs item := by
  refine (keeps_checkExactly h (Ty.primitive_ne_void .number)).bind fun _ => ?_
  split
  · exact .pure fun hgiven => ⟨⟨_, rfl, nofun⟩, hgiven.2⟩
  · exact (keeps_refuse _ _ _).absurd

theorem keeps_receiveMember (env : TypeEnv) (reference : Reference) (member : String × Ty) :
    Keeps given (receiveMember env reference member) fun _ => True :=
  keeps_of_sound env (sound_receiveMember reference member)
    (Rerun.repeats_receiveMember member.2.among_true reference)

theorem keeps_spreadAssignment (h : Weighed env item) (mark : Mark) :
    Keeps given (spreadAssignment env mark (partOf env item)) fun type? =>
      type? = some .void ∧ Weighs item := by
  refine (h given).bind fun results? => ?_
  cases results? with
  | none => exact .pure fun hgiven => (not_shows_none hgiven.2.1).elim
  | some results =>
    dsimp only
    split
    · exact (keeps_refuse _ _ _).absurd
    · next hobject =>
      refine Keeps.bind (keeps_forM (P := fun _ => True) fun member _ =>
        keeps_receiveMember env mark.reference member) fun _ => .pure fun hgiven => ⟨rfl, ?_⟩
      obtain ⟨⟨_, hshows, huses⟩, _⟩ := hgiven
      exact ⟨hshows.isValue (Ty.ne_void_of_isObject (by simpa using hobject)), huses⟩

/-! ### Expressions -/

theorem FindsValue.shows {type? : Option Ty} (h : FindsValue type?) (hitem : item.IsValue) :
    Shows type? item := by
  obtain ⟨type, rfl, hvoid⟩ := h
  refine ⟨type, rfl, iff_of_false hvoid fun hstatement => ?_⟩
  cases hitem.symm.trans hstatement

theorem shows_statement (h : item.ungrouped.isStatement = true) : Shows (some .void) item :=
  ⟨.void, rfl, iff_of_true rfl h⟩

theorem usesValues_of_parts {whole : Expr} (hcompared : whole.compared = [])
    (hparts : ∀ part ∈ whole.checkedParts, part.UsesValues) : whole.UsesValues := by
  refine Expr.allChecked_iff.2 ⟨?_, hparts⟩
  rw [hcompared]
  exact nofun

theorem usesValues_of_weighs {whole : Expr} (hcompared : whole.compared = whole.checkedParts)
    (h : ∀ part ∈ whole.checkedParts, Weighs part) : whole.UsesValues := by
  refine Expr.allChecked_iff.2 ⟨?_, fun part hpart => (h part hpart).2⟩
  rw [hcompared]
  exact fun value hvalue => (h value hvalue).1

theorem keeps_derive (hcolumns : env.ColumnsResolve) {whole : Expr} (hregular : whole.Regular)
    (hinferred : ∀ value ∈ whole.inferring, value.IsValue)
    (h : ∀ part ∈ whole.checkedParts, Weighed env part) :
    Keeps given (derive env whole fun inner _ => expression env inner) fun type? =>
      Shows type? whole ∧ whole.UsesValues := by
  cases whole with
  | literal mark value =>
    exact .pure fun _ => ⟨FindsValue.shows ⟨_, rfl, Ty.primitive_ne_void _⟩ rfl,
      usesValues_of_parts rfl (List.forall_mem_nil _)⟩
  | name mark word =>
    refine (keeps_pathType? env mark _).weaken fun _ _ htype => ?_
    exact ⟨htype.shows rfl, usesValues_of_parts rfl (List.forall_mem_nil _)⟩
  | path mark names =>
    refine (keeps_pathType? env mark names).weaken fun _ _ htype => ?_
    exact ⟨htype.shows rfl, usesValues_of_parts rfl (List.forall_mem_nil _)⟩
  | binary mark left operator right =>
    obtain ⟨hleft, hright⟩ := List.forall_mem_cons.1 h
    have hright := hright right List.mem_cons_self
    refine (keeps_binary hleft hright mark operator).weaken ?_
    rintro _ _ ⟨htype, hleft, hright⟩
    exact ⟨htype.shows rfl, usesValues_of_weighs rfl
      (List.forall_mem_cons.2 ⟨hleft, List.forall_mem_singleton.2 hright⟩)⟩
  | assign mark target value =>
    obtain ⟨htarget, hvalue⟩ := List.forall_mem_cons.1 h
    have hvalue := hvalue value List.mem_cons_self
    refine (keeps_assignment htarget hvalue mark).weaken ?_
    rintro _ _ ⟨rfl, husesTarget, hvalue, husesValue⟩
    exact ⟨shows_statement rfl, Expr.allChecked_iff.2 ⟨List.forall_mem_singleton.2 hvalue,
      List.forall_mem_cons.2 ⟨husesTarget, List.forall_mem_singleton.2 husesValue⟩⟩⟩
  | declare mark type name default =>
    have hdefault : ∀ value ∈ default, Weighed env value :=
      fun value hvalue => h value (Option.mem_toList.2 hvalue)
    have himplicit : type = .implicit → ∀ value ∈ default, value.IsValue := by
      rintro rfl value hvalue
      exact hinferred value (Option.mem_toList.2 hvalue)
    rw [derive, childPart?_eq (.declare mark type name default) default fun _ => Option.mem_toList.2]
    refine (keeps_declaration hdefault _ .code himplicit).bind fun _ => .pure fun hgiven =>
      ⟨shows_statement rfl, usesValues_of_weighs rfl fun value hvalue => ?_⟩
    exact hgiven.2 value (Option.mem_toList.1 hvalue)
  | group mark inner =>
    refine (h inner List.mem_cons_self given).weaken ?_
    rintro _ _ ⟨htype, huses⟩
    exact ⟨htype, usesValues_of_parts rfl (List.forall_mem_singleton.2 huses)⟩
  | indexed mark table index =>
    refine (keeps_indexed (h index List.mem_cons_self) mark table).weaken ?_
    rintro _ _ ⟨htype, hindex⟩
    exact ⟨htype.shows rfl, usesValues_of_weighs rfl (List.forall_mem_singleton.2 hindex)⟩
  | make mark making type typeReference =>
    refine (keeps_make hcolumns mark making type typeReference).weaken fun _ _ htype => ?_
    exact ⟨htype.shows rfl, usesValues_of_parts rfl (List.forall_mem_nil _)⟩
  | extract mark object =>
    refine (keeps_extract (h object List.mem_cons_self) mark).weaken ?_
    rintro _ _ ⟨rfl, hobject⟩
    exact ⟨shows_statement rfl, usesValues_of_weighs rfl (List.forall_mem_singleton.2 hobject)⟩
  | lookUp mark function table tableReference discriminator value discriminatorColumn searchColumn
      resultColumn =>
    obtain ⟨hdiscriminator, hvalue⟩ := List.forall_mem_append.1 h
    rw [derive, childPart?_eq (.lookUp mark function table tableReference discriminator value
      discriminatorColumn searchColumn resultColumn) discriminator fun _ hitem =>
        List.mem_append_left [value] (Option.mem_toList.2 hitem)]
    refine (keeps_lookUp hcolumns hregular
      (fun item hitem => hdiscriminator item (Option.mem_toList.2 hitem))
      (hvalue value List.mem_cons_self) table tableReference searchColumn resultColumn).weaken ?_
    rintro _ _ ⟨htype, hdiscriminator, hvalue⟩
    refine ⟨htype.shows rfl, usesValues_of_weighs rfl (List.forall_mem_append.2 ⟨?_, ?_⟩)⟩
    · exact fun item hitem => hdiscriminator item (Option.mem_toList.1 hitem)
    · exact List.forall_mem_singleton.2 hvalue
  | call mark function arguments =>
    have harguments : ∀ item ∈ arguments, Weighed env item := h
    rw [derive, childParts_eq (.call mark function arguments) arguments fun _ hitem => hitem]
    refine (keeps_call harguments mark function).weaken ?_
    rintro _ _ ⟨htype, hitems⟩
    exact ⟨htype.shows rfl, usesValues_of_weighs rfl hitems⟩
  | ifThen mark test lines alternatives =>
    obtain ⟨htest, hrest⟩ := List.forall_mem_cons.1 h
    obtain ⟨hlines, halternatives⟩ := List.forall_mem_append.1 hrest
    rw [derive, childParts_eq (.ifThen mark test lines alternatives) lines fun _ hline =>
        .tail _ (List.mem_append_left alternatives hline),
      childParts_eq (.ifThen mark test lines alternatives) alternatives fun _ hline =>
        .tail _ (List.mem_append_right lines hline)]
    refine (keeps_condition htest .ifBranch).bind fun _ => (keeps_body hlines).bind fun _ => ?_
    refine (keeps_checkAll halternatives).bind fun _ => .pure ?_
    rintro ⟨⟨⟨_, htest, husesTest⟩, hlines⟩, halternatives⟩
    exact ⟨shows_statement rfl, Expr.allChecked_iff.2 ⟨List.forall_mem_singleton.2 htest,
      List.forall_mem_cons.2 ⟨husesTest, List.forall_mem_append.2 ⟨hlines, halternatives⟩⟩⟩⟩
  | elseIf mark test lines =>
    obtain ⟨htest, hlines⟩ := List.forall_mem_cons.1 h
    rw [derive, childParts_eq (.elseIf mark test lines) lines fun _ => .tail _]
    refine (keeps_condition htest .elseIfBranch).bind fun _ => (keeps_body hlines).bind fun _ => .pure ?_
    rintro ⟨⟨_, htest, husesTest⟩, hlines⟩
    exact ⟨shows_statement rfl, Expr.allChecked_iff.2 ⟨List.forall_mem_singleton.2 htest,
      List.forall_mem_cons.2 ⟨husesTest, hlines⟩⟩⟩
  | otherwise mark lines =>
    have hlines : ∀ line ∈ lines, Weighed env line := h
    rw [derive, childParts_eq (.otherwise mark lines) lines fun _ hline => hline]
    refine (keeps_body hlines).bind fun _ => .pure fun hgiven => ⟨shows_statement rfl, ?_⟩
    exact usesValues_of_parts rfl hgiven.2
  | switch mark subject cases =>
    obtain ⟨hsubject, hcases⟩ := List.forall_mem_cons.1 h
    have hbranches : ∀ branch ∈ cases, ∀ part ∈ branch.branchParts, Weighed env part :=
      fun branch hbranch part hpart => hcases part (List.mem_flatMap.2 ⟨branch, hbranch, hpart⟩)
    rw [derive, caseParts_eq (.switch mark subject cases) cases fun _ => .tail _]
    refine (keeps_switch hsubject hbranches (hinferred subject List.mem_cons_self)).weaken ?_
    rintro _ _ ⟨rfl, ⟨hsubject, husesSubject⟩, hbranches⟩
    refine ⟨shows_statement rfl, Expr.allChecked_iff.2 ⟨List.forall_mem_cons.2 ⟨hsubject, ?_⟩,
      List.forall_mem_cons.2 ⟨husesSubject, ?_⟩⟩⟩
    · intro value hvalue
      obtain ⟨branch, hbranch, hvalue⟩ := List.mem_filterMap.1 hvalue
      exact (hbranches branch hbranch).1 value hvalue
    · intro part hpart
      obtain ⟨branch, hbranch, hpart⟩ := List.mem_flatMap.1 hpart
      exact (hbranches branch hbranch).2 part hpart
  | case mark value lines =>
    have hlines : ∀ line ∈ lines, Weighed env line := h
    rw [derive, childParts_eq (.case mark value lines) lines fun _ =>
      List.mem_append_right value.toList]
    refine (keeps_body hlines).bind fun _ => .pure fun hgiven => ⟨shows_statement rfl, ?_⟩
    exact usesValues_of_parts rfl hgiven.2
  | spread mark => exact (keeps_refuse _ _ _).absurd
  | spreadAssign mark invoked =>
    refine (keeps_spreadAssignment (h invoked List.mem_cons_self) mark).weaken ?_
    rintro _ _ ⟨rfl, hinvoked⟩
    exact ⟨shows_statement rfl, usesValues_of_weighs rfl (List.forall_mem_singleton.2 hinvoked)⟩

/-- If no type is taken over from a statement, no statement is used as a value. -/
theorem weighed_expression (hcolumns : env.ColumnsResolve) {whole : Expr} (h : whole.Guarded) :
    Weighed env whole := by
  induction hsize : sizeOf whole using Nat.strongRecOn generalizing whole with
  | ind size ih =>
    subst hsize
    obtain ⟨⟨hregular, hinferred⟩, hparts⟩ := Expr.allChecked_iff.1 h
    -- Parts are weighed for any `given`: the one that a part is checked under depends on what was
    -- checked before it.
    intro given
    rw [expression]
    refine (keeps_derive hcolumns hregular hinferred fun part hpart => ?_).bind fun type? => ?_
    · exact ih (sizeOf part) (Expr.sizeOf_lt_of_mem_checkedParts hpart) (hparts part hpart) rfl
    · cases type? with
      | none => exact .pure fun hgiven => (not_shows_none hgiven.2.1).elim
      | some type => exact (keeps_recordType whole.id type).bind fun _ => .pure fun hgiven => hgiven.1.2

end DecisionLang.Check
