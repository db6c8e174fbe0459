import DecisionLang.Proofs.Typing.Columns
import DecisionLang.Reading.Source
import DecisionLang.Typing.Query

/-!
# Questions about types, in steps

If no chain of columns comes back, `stepBound` steps settle all questions about types, and the
answers are those of the functions that know no bound; otherwise there is a column whose written
type is never settled: `TypeEnv.columnsEnd_iff`.
-/

namespace DecisionLang

theorem settled_bind {α β : Type} {answer : Option α} {rest : α → OptionT Option β}
    {rest' : α → Option β} (h : ∀ value, rest value = settled (rest' value)) :
    settled answer >>= rest = settled (answer.bind rest') := by
  cases answer with
  | none => rfl
  | some value => exact h value

theorem allM_eq {α : Type} {items : List α} {holds : α → Option Bool} {holds' : α → Bool}
    (h : ∀ item ∈ items, holds item = some (holds' item)) :
    items.allM holds = some (items.all holds') := by
  induction items with
  | nil => rfl
  | cons item rest ih =>
    rw [List.allM, h item List.mem_cons_self, List.all_cons]
    cases holds' item with
    | false => rfl
    | true => exact ih fun item hitem => h item (List.mem_cons_of_mem _ hitem)

theorem anyM_eq {α : Type} {items : List α} {holds : α → Option Bool} {holds' : α → Bool}
    (h : ∀ item ∈ items, holds item = some (holds' item)) :
    items.anyM holds = some (items.any holds') := by
  induction items with
  | nil => rfl
  | cons item rest ih =>
    rw [List.anyM, h item List.mem_cons_self, List.any_cons]
    cases holds' item with
    | false => exact ih fun item hitem => h item (List.mem_cons_of_mem _ hitem)
    | true => rfl

namespace TypeEnv

/-! ### Steps are enough -/

section Enough

variable {env : TypeEnv} {resolve : WrittenType → OptionT Option Ty} {members : Ty → Option Typed}
  {values : Ty → Typed}

theorem columnTypeIn_eq (hresolve : ∀ type, resolve type = settled (env.resolve? type))
    (table column : String) :
    env.columnTypeIn resolve table column = settled (env.columnType? table column) :=
  settled_bind fun _ => settled_bind fun column => hresolve column.type

theorem memberIn_eq (hresolve : ∀ type, resolve type = settled (env.resolve? type))
    (hmembers : ∀ object, members object = some (values object)) (owner : Ty) (member : String) :
    env.memberIn resolve members owner member = settled (env.memberFrom? values owner member) := by
  cases owner with
  | table name =>
    refine settled_bind fun _ => ?_
    split
    · rfl
    · split
      · rfl
      · exact columnTypeIn_eq hresolve name member
  | record | generated =>
    simp only [memberIn, memberFrom?, hmembers]
    rfl
  | enumeration | function | primitive | void => rfl

theorem followIn_eq (hresolve : ∀ type, resolve type = settled (env.resolve? type))
    (hmembers : ∀ object, members object = some (values object)) (owner : Ty) (path : List String) :
    path.foldlM (env.memberIn resolve members) owner = settled (env.followFrom? values owner path) := by
  unfold followFrom?
  induction path generalizing owner with
  | nil => rfl
  | cons member path ih =>
    rw [List.foldlM_cons, List.foldlM_cons, memberIn_eq hresolve hmembers]
    exact settled_bind ih

theorem defaultIn_eq (hresolve : ∀ type, resolve type = settled (env.resolve? type))
    (hmembers : ∀ object, members object = some (values object)) (visible : Typed)
    (expression : Expr) :
    env.defaultIn resolve members visible expression =
      settled (env.defaultFrom? values visible expression) := by
  fun_induction defaultFrom? env values visible expression with
  | case1 => rfl
  | case2 => rfl
  | case3 => exact settled_bind fun root => followIn_eq hresolve hmembers root _
  | case4 _ _ ih => exact ih
  | case5 _ left operator right ihleft ihright =>
    rw [defaultIn, ihleft, ihright]
    exact settled_bind fun _ => settled_bind fun _ => rfl
  | case6 _ _ type =>
    rw [defaultIn, hresolve, resolvePath?, ← Option.bind_guard]
    exact settled_bind fun _ => rfl
  | case7 => exact columnTypeIn_eq hresolve _ _
  | case8 => rfl
  | case9 _ _ _ h => simp only [defaultIn, if_pos h]
  | case10 _ _ _ h => simp only [defaultIn, if_neg h]
  | case11 =>
    unfold defaultIn
    split <;> first | rfl | grind

theorem definitionIn_eq (hresolve : ∀ type, resolve type = settled (env.resolve? type))
    (hmembers : ∀ object, members object = some (values object)) (visible : Typed)
    (definition : Definition) :
    env.definitionIn resolve members visible definition =
      settled (env.definitionFrom? values visible definition) := by
  unfold definitionIn definitionFrom?
  cases definition.type with
  | implicit =>
    cases definition.default with
    | none => rfl
    | some default => exact defaultIn_eq hresolve hmembers visible default
  | primitive | named => exact hresolve _

theorem definitionsIn_eq (hresolve : ∀ type, resolve type = settled (env.resolve? type))
    (hmembers : ∀ object, members object = some (values object)) (visible : Typed)
    (definitions : List Definition) :
    env.definitionsIn resolve members visible definitions =
      some (env.definitionsFrom values visible definitions) := by
  induction definitions generalizing visible with
  | nil => rfl
  | cons definition rest ih =>
    rw [definitionsIn, definitionIn_eq hresolve hmembers, definitionsFrom]
    cases env.definitionFrom? values visible definition with
    | none => exact ih visible
    | some type => simp [settled, ih]

theorem blockIn_eq (hresolve : ∀ type, resolve type = settled (env.resolve? type))
    (hmembers : ∀ object, members object = some (values object)) (decl : FunctionDecl)
    (role : BlockRole) :
    env.blockIn resolve members decl role = some (env.blockFrom values decl role) := by
  rw [blockIn, definitionsIn_eq hresolve hmembers]
  cases role with
  | parameters => rfl
  | results => exact definitionsIn_eq hresolve hmembers _ _

theorem columnTypesIn_eq (hresolve : ∀ type, resolve type = settled (env.resolve? type))
    (columns : List Column) :
    columnTypesIn resolve columns = some (columns.filterMap fun column =>
      (env.resolve? column.type).map fun type => (column.name, type)) := by
  induction columns with
  | nil => rfl
  | cons column rest ih =>
    rw [columnTypesIn, hresolve, ih, List.filterMap_cons]
    cases env.resolve? column.type <;> rfl

theorem membersIn_eq (hresolve : ∀ type, resolve type = settled (env.resolve? type))
    (hmembers : ∀ object, members object = some (values object)) (object : Ty) :
    env.membersIn resolve members object = some (env.membersFrom values object) := by
  cases object with
  | record name =>
    simp only [membersIn, membersFrom]
    cases env.document.record? name with
    | none => rfl
    | some decl => exact definitionsIn_eq hresolve hmembers [] decl.members
  | generated owner part =>
    cases part with
    | row =>
      simp only [membersIn, membersFrom]
      cases env.document.table? owner with
      | none => rfl
      | some decl => exact columnTypesIn_eq hresolve decl.columns
    | parameters | results =>
      simp only [membersIn, membersFrom]
      cases env.document.function? owner with
      | none => rfl
      | some decl => exact blockIn_eq hresolve hmembers decl _
  | primitive | enumeration | table | function | void => rfl

theorem membersIn_of_notMem {object : Ty} (h : object ∉ env.objectTypes) :
    env.membersIn resolve members object = some [] := by
  have hnone {declaration : Declaration} (hmem : declaration ∈ env.document.declarations)
      (hobject : object ∈ objectTypesOf declaration) : False :=
    h (List.mem_flatMap.2 ⟨declaration, hmem, hobject⟩)
  cases object with
  | record name =>
    simp only [membersIn]
    cases hdecl : env.document.record? name with
    | none => rfl
    | some decl =>
      obtain ⟨hmem, rfl⟩ := Document.mem_declarations_of_record? hdecl
      exact (hnone hmem (by simp [objectTypesOf])).elim
  | generated owner part =>
    cases part with
    | row =>
      simp only [membersIn]
      cases hdecl : env.document.table? owner with
      | none => rfl
      | some decl =>
        obtain ⟨hmem, rfl⟩ := Document.mem_declarations_of_table? hdecl
        exact (hnone hmem (by simp [objectTypesOf])).elim
    | parameters | results =>
      simp only [membersIn]
      cases hdecl : env.document.function? owner with
      | none => rfl
      | some decl =>
        obtain ⟨hmem, rfl⟩ := Document.mem_declarations_of_function? hdecl
        exact (hnone hmem (by simp [objectTypesOf])).elim
  | primitive | enumeration | table | function | void => rfl

/-- The answer to a question, given how written types, members and assignability are settled. -/
def answerIn (env : TypeEnv) (resolve : WrittenType → OptionT Option Ty)
    (members : Ty → Option Typed) (assignable : Ty → Ty → Option Bool) :
    TypeQuery → Option TypeAnswer
  | .path path => (resolve (.named path)).run.map .type
  | .written type => (resolve type).run.map .type
  | .member owner name => (env.memberIn resolve members owner name).run.map .type
  | .members object => (members object).map .members
  | .functionMembers decl role => (env.blockIn resolve members decl role).map .members
  | .default visible expression => (env.defaultIn resolve members visible expression).run.map .type
  | .assignable target value => (assignable target value).map .holds

theorem answerIn_eq (hresolve : ∀ type, resolve type = settled (env.resolve? type))
    (hmembers : ∀ object, members object = some (env.members object))
    {assignable : Ty → Ty → Option Bool}
    (hassignable : ∀ target value, assignable target value = some (env.assignable target value))
    (query : TypeQuery) :
    env.answerIn resolve members assignable query = some (env.answer query) := by
  cases query with
  | path path =>
    rw [answerIn, hresolve]
    rfl
  | written type =>
    rw [answerIn, hresolve]
    rfl
  | member owner name =>
    rw [answerIn, memberIn_eq hresolve hmembers]
    rfl
  | members object =>
    rw [answerIn, hmembers]
    rfl
  | functionMembers decl role =>
    rw [answerIn, blockIn_eq hresolve hmembers]
    rfl
  | default visible expression =>
    rw [answerIn, defaultIn_eq hresolve hmembers]
    rfl
  | assignable target value =>
    rw [answerIn, hassignable]
    rfl

theorem answerWithin_eq_answerIn (steps : Nat) (query : TypeQuery) :
    env.answerWithin steps query =
      env.answerIn (env.resolveIn steps) (env.membersWithin steps [])
        (env.assignableWithin steps []) query := by
  cases query <;> rfl

end Enough

section Bound

variable {env : TypeEnv} {steps : Nat}

theorem resolveIn_eq (hend : env.ColumnsEnd) (hsteps : env.columnCount < steps)
    (type : WrittenType) : env.resolveIn steps type = settled (env.resolve? type) :=
  congrArg OptionT.mk (resolveWithin_eq hend hsteps type)

/-- Each object type on the way takes one step, and then there are steps left for columns. -/
theorem membersWithin_eq (hend : env.ColumnsEnd) {visiting : List Ty}
    (hsteps : unmet env.objectTypes visiting + env.columnCount + 2 ≤ steps) (object : Ty) :
    env.membersWithin steps visiting object = some (env.membersOutside visiting object) := by
  induction steps generalizing visiting object with
  | zero => omega
  | succ steps ih =>
    rw [membersWithin, membersOutside]
    by_cases hvisiting : object ∈ visiting
    · rw [if_pos hvisiting, dif_neg (fun h => h.2 hvisiting)]
    rw [if_neg hvisiting]
    by_cases hobject : object ∈ env.objectTypes
    · rw [dif_pos ⟨hobject, hvisiting⟩]
      have hlt := unmet_cons_lt hobject hvisiting
      exact membersIn_eq (resolveIn_eq hend (by omega)) (ih (by omega)) object
    · rw [dif_neg (fun h => hobject h.1), membersIn_of_notMem hobject]

theorem members_of_notMem {object : Ty} (h : object ∉ env.objectTypes) : env.members object = [] := by
  rw [members, membersOutside, dif_neg (fun hmem => h hmem.1)]

theorem mem_objectPairs_of_mem {target value : Ty} (htarget : target ∈ env.objectTypes)
    (hvalue : value ∈ env.objectTypes) : (target, value) ∈ env.objectPairs :=
  List.mem_flatMap.2 ⟨target, htarget, List.mem_map_of_mem hvalue⟩

theorem mem_objectPairs_of_mem_members {target value : Ty} {wanted offered : String × Ty}
    (hwanted : wanted ∈ env.members target) (hoffered : offered ∈ env.members value) :
    (target, value) ∈ env.objectPairs := by
  have hmem {object : Ty} {entry : String × Ty} (hentry : entry ∈ env.members object) :
      object ∈ env.objectTypes := by
    by_contra hobject
    rw [members_of_notMem hobject] at hentry
    cases hentry
  exact mem_objectPairs_of_mem (hmem hwanted) (hmem hoffered)

/-- Two object types that are not being compared yet are compared member by member. -/
theorem assignableAmong_eq_all {comparing : List (Ty × Ty)} {target value : Ty}
    (hne : target ≠ value) (hobjects : ¬(!target.isObject || !value.isObject) = true)
    (hcomparing : (target, value) ∉ comparing) :
    env.assignableAmong comparing target value =
      (env.members target).all fun wanted => (env.members value).any fun offered =>
        offered.1 == wanted.1 &&
          env.assignableAmong ((target, value) :: comparing) wanted.2 offered.2 := by
  rw [assignableAmong, if_neg hne, if_neg hobjects, if_neg hcomparing]
  by_cases hpair : (target, value) ∈ env.objectPairs
  · rw [dif_pos ⟨hpair, hcomparing⟩]
  · rw [dif_neg (fun h => hpair h.1)]
    cases htarget : env.members target with
    | nil => rfl
    | cons wanted rest =>
      have hvalue : env.members value = [] := by
        apply List.eq_nil_iff_forall_not_mem.2
        intro offered hoffered
        exact hpair (mem_objectPairs_of_mem_members (htarget ▸ List.mem_cons_self) hoffered)
      rw [hvalue]
      rfl

/-- Each pair on the way takes one step, and then there are steps left for members. -/
theorem assignableWithin_eq (hend : env.ColumnsEnd) {comparing : List (Ty × Ty)}
    (hsteps : unmet env.objectPairs comparing + env.memberSteps + 1 ≤ steps) (target value : Ty) :
    env.assignableWithin steps comparing target value =
      some (env.assignableAmong comparing target value) := by
  induction steps generalizing comparing target value with
  | zero => omega
  | succ steps ih =>
    have hle : unmet env.objectTypes [] + env.columnCount + 2 ≤ steps := by
      unfold memberSteps at hsteps
      omega
    have hmembers : ∀ object, env.membersWithin steps [] object = some (env.members object) :=
      membersWithin_eq hend hle
    rw [assignableWithin]
    split
    · next hsame => rw [assignableAmong, if_pos hsame]
    split
    · next hne hobjects => rw [assignableAmong, if_neg hne, if_pos hobjects]
    split
    · next hne hobjects hcomparing =>
      rw [assignableAmong, if_neg hne, if_neg hobjects, if_pos hcomparing]
    next hne hobjects hcomparing =>
      rw [hmembers, hmembers, assignableAmong_eq_all hne hobjects hcomparing]
      apply allM_eq
      intro wanted hwanted
      apply anyM_eq
      intro offered hoffered
      have hlt := unmet_cons_lt (mem_objectPairs_of_mem_members hwanted hoffered) hcomparing
      rw [ih (by omega)]
      cases offered.1 == wanted.1 <;> rfl

theorem answerWithin_eq (hend : env.ColumnsEnd) (hsteps : env.stepBound ≤ steps)
    (query : TypeQuery) : env.answerWithin steps query = some (env.answer query) := by
  have hmemberSteps : env.memberSteps < steps := by
    unfold stepBound at hsteps
    omega
  have hcolumns : env.columnCount < steps := by
    unfold memberSteps at hmemberSteps
    omega
  rw [answerWithin_eq_answerIn]
  apply answerIn_eq
  · exact resolveIn_eq hend hcolumns
  · exact membersWithin_eq hend (Nat.le_of_lt hmemberSteps)
  · exact assignableWithin_eq hend hsteps

/-- A chain of columns that comes back passes a column, whose written type is never settled. -/
theorem exists_unsettled (h : ¬env.ColumnsEnd) :
    ∃ column ∈ env.columns, ∀ steps, env.answerWithin steps (.written column.type) = none := by
  obtain ⟨type, hback⟩ := not_forall_not.1 h
  obtain ⟨next, hnext, hrest⟩ := Relation.TransGen.head'_iff.1 hback
  obtain ⟨column, hcolumn, rfl⟩ := hnext.mem_columns
  have hcycle : Relation.TransGen env.Leads column.type column.type := .tail' hrest hnext
  refine ⟨column, hcolumn, fun steps => ?_⟩
  rw [answerWithin, resolveWithin_eq_none_of_transGen hcycle hcycle, Option.map_none]

end Bound

/-- No chain of columns comes back to a type it has passed exactly if the written types of all
columns are settled, and exactly if all queries are, within the same number of steps and with the
answers of the functions that know no bound. -/
theorem columnsEnd_iff (env : TypeEnv) :
    (env.ColumnsEnd ↔ ∀ column ∈ env.columns, ∃ steps,
      env.answerWithin steps (.written column.type) ≠ none) ∧
    (env.ColumnsEnd ↔ ∀ query steps, env.stepBound ≤ steps →
      env.answerWithin steps query = some (env.answer query)) := by
  have hanswers (hend : env.ColumnsEnd) (query : TypeQuery) (steps : Nat)
      (hsteps : env.stepBound ≤ steps) : env.answerWithin steps query = some (env.answer query) :=
    answerWithin_eq hend hsteps query
  refine ⟨⟨fun hend column _ => ⟨env.stepBound, ?_⟩, fun hall => ?_⟩, hanswers, fun hall => ?_⟩
  · rw [hanswers hend _ _ (Nat.le_refl _)]
    exact Option.some_ne_none _
  · by_contra hback
    obtain ⟨column, hcolumn, hnone⟩ := exists_unsettled hback
    obtain ⟨steps, hsome⟩ := hall column hcolumn
    exact hsome (hnone steps)
  · by_contra hback
    obtain ⟨column, _, hnone⟩ := exists_unsettled hback
    have hsome := hall (.written column.type) env.stepBound (Nat.le_refl _)
    rw [hnone] at hsome
    cases hsome

/-- A table whose only column names itself as its type. -/
def selfNamedColumn : Progress :=
  ({} : Progress).readSource .standard 2 "test.lexy" ["table A", "  | A.X X |"]

/-- The document is read without errors, and the type of the column is never settled. -/
theorem not_settled_selfNamedColumn :
    selfNamedColumn.log.hasErrors = false ∧
      ∀ steps, answerWithin ⟨selfNamedColumn.document, .standard⟩ steps
        (.written (.named ⟨"A", ["X"]⟩)) = none := by
  have hleads : Leads ⟨selfNamedColumn.document, .standard⟩ (.named ⟨"A", ["X"]⟩)
      (.named ⟨"A", ["X"]⟩) := by
    decide +kernel
  refine ⟨by decide +kernel, fun steps => ?_⟩
  rw [answerWithin, resolveWithin_eq_none_of_transGen (.single hleads) (.single hleads),
    Option.map_none]

end TypeEnv

end DecisionLang
