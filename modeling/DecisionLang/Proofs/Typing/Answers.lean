import DecisionLang.Proofs.Typing.Defaults
import DecisionLang.Proofs.Typing.Settling

/-!
# Questions that have an answer

More steps settle whatever fewer steps settle, and settle it alike; from a bound on, they settle
nothing else. So a question has an answer exactly if it has one within `stepBound` steps
(`TypeEnv.answer?_eq_some_iff`), and that is the answer of the functions that know no bound
(`TypeEnv.eq_answer_of_answer?`).
-/

namespace DecisionLang

/-- The last computation settles what the first one does, and settles it alike. -/
def Extends {α : Type} (last first : Option α) : Prop :=
  ∀ found, first = some found → last = some found

namespace Extends

variable {α β : Type} {first last : Option α}

theorem refl (first : Option α) : Extends first first := by
  intro found h
  exact h

theorem of_none : Extends last none := by
  intro found h
  cases h

theorem bind_of_mem {rest rest' : α → Option β} (h : Extends last first)
    (hrest : ∀ found, first = some found → Extends (rest' found) (rest found)) :
    Extends (last.bind rest') (first.bind rest) := by
  intro result hresult
  obtain ⟨found, hfound, hresult⟩ := Option.bind_eq_some_iff.1 hresult
  rw [h found hfound]
  exact hrest found hfound result hresult

theorem bind {rest rest' : α → Option β} (h : Extends last first)
    (hrest : ∀ found, Extends (rest' found) (rest found)) :
    Extends (last.bind rest') (first.bind rest) :=
  h.bind_of_mem fun found _ => hrest found

theorem of_bind {value : α} {result : Option β} {rest : α → Option β}
    (h : Extends (some value) first) (hrest : Extends result (rest value)) :
    Extends result (first.bind rest) := by
  intro found hfound
  obtain ⟨value', hvalue, hfound⟩ := Option.bind_eq_some_iff.1 hfound
  cases h value' hvalue
  exact hrest found hfound

theorem map (h : Extends last first) (f : α → β) : Extends (last.map f) (first.map f) := by
  intro result hresult
  obtain ⟨found, hfound, rfl⟩ := Option.map_eq_some_iff.1 hresult
  rw [h found hfound, Option.map_some]

theorem bindT {first last : OptionT Option α} {rest rest' : α → OptionT Option β}
    (h : Extends last.run first.run)
    (hrest : ∀ found, Extends (rest' found).run (rest found).run) :
    Extends (last >>= rest').run (first >>= rest).run := by
  rw [OptionT.run_bind, OptionT.run_bind]
  apply h.bind
  intro found
  cases found with
  | none => exact refl _
  | some value => exact hrest value

theorem allM {items : List α} {holds holds' : α → Option Bool}
    (h : ∀ item ∈ items, Extends (holds' item) (holds item)) :
    Extends (items.allM holds') (items.allM holds) := by
  induction items with
  | nil => exact refl _
  | cons item rest ih =>
    apply (h item List.mem_cons_self).bind
    intro found
    cases found with
    | false => exact refl _
    | true => exact ih fun item hitem => h item (List.mem_cons_of_mem _ hitem)

theorem anyM {items : List α} {holds holds' : α → Option Bool}
    (h : ∀ item ∈ items, Extends (holds' item) (holds item)) :
    Extends (items.anyM holds') (items.anyM holds) := by
  induction items with
  | nil => exact refl _
  | cons item rest ih =>
    apply (h item List.mem_cons_self).bind
    intro found
    cases found with
    | false => exact ih fun item hitem => h item (List.mem_cons_of_mem _ hitem)
    | true => exact refl _

theorem all {items : List α} {holds : α → Option Bool} {holds' : α → Bool}
    (h : ∀ item, Extends (some (holds' item)) (holds item)) :
    Extends (some (items.all holds')) (items.allM holds) := by
  rw [← allM_eq fun _ _ => rfl]
  exact allM fun item _ => h item

theorem any {items : List α} {holds : α → Option Bool} {holds' : α → Bool}
    (h : ∀ item, Extends (some (holds' item)) (holds item)) :
    Extends (some (items.any holds')) (items.anyM holds) := by
  rw [← anyM_eq fun _ _ => rfl]
  exact anyM fun item _ => h item

end Extends

namespace TypeEnv

/-! ### One step of each question -/

section Step

variable {env : TypeEnv} {resolve resolve' : WrittenType → OptionT Option Ty}
  {members members' : Ty → Option Typed}
  (hresolve : ∀ type, Extends (resolve' type).run (resolve type).run)
  (hmembers : ∀ object, Extends (members' object) (members object))

include hresolve

theorem extends_columnTypeIn (table column : String) :
    Extends (env.columnTypeIn resolve' table column).run
      (env.columnTypeIn resolve table column).run := by
  apply (Extends.refl _).bindT
  intro table
  apply (Extends.refl _).bindT
  intro column
  exact hresolve column.type

theorem extends_columnTypesIn (columns : List Column) :
    Extends (columnTypesIn resolve' columns) (columnTypesIn resolve columns) := by
  induction columns with
  | nil => exact Extends.refl _
  | cons column rest ih =>
    apply (hresolve column.type).bind
    intro type?
    apply ih.bind
    intro others
    exact Extends.refl _

include hmembers

theorem extends_memberIn (owner : Ty) (member : String) :
    Extends (env.memberIn resolve' members' owner member).run
      (env.memberIn resolve members owner member).run := by
  cases owner with
  | table name =>
    apply (Extends.refl _).bindT
    intro table
    split
    · exact Extends.refl _
    · split
      · exact Extends.refl _
      · exact extends_columnTypeIn hresolve name member
  | record | generated => exact (hmembers _).map _
  | enumeration | function | primitive | void => exact Extends.refl _

theorem extends_followIn (owner : Ty) (path : List String) :
    Extends (path.foldlM (env.memberIn resolve' members') owner).run
      (path.foldlM (env.memberIn resolve members) owner).run := by
  induction path generalizing owner with
  | nil => exact Extends.refl _
  | cons member path ih =>
    rw [List.foldlM_cons, List.foldlM_cons]
    exact (extends_memberIn hresolve hmembers owner member).bindT ih

theorem extends_defaultIn (visible : Typed) (expression : Expr) :
    Extends (env.defaultIn resolve' members' visible expression).run
      (env.defaultIn resolve members visible expression).run := by
  induction expression using Expr.operand_induction with
  | group mark inner ih => exact ih
  | binary mark left operator right ihleft ihright =>
    apply ihleft.bindT
    intro left
    apply ihright.bindT
    intro right
    exact Extends.refl _
  | other item hgroup hbinary =>
    cases item with
    | group mark inner => exact absurd rfl (hgroup mark inner)
    | binary mark left operator right => exact absurd rfl (hbinary mark left operator right)
    | path mark names =>
      apply (Extends.refl _).bindT
      intro root
      exact extends_followIn hresolve hmembers root names.members
    | make mark making type typeReference =>
      apply (hresolve (.named type)).bindT
      intro type
      exact Extends.refl _
    | lookUp mark function table tableReference discriminator value discriminatorColumn searchColumn
        resultColumn =>
      cases resultColumn with
      | none => exact Extends.refl _
      | some column => exact extends_columnTypeIn hresolve table column.column
    | _ => exact Extends.refl _

theorem extends_definitionIn (visible : Typed) (definition : Definition) :
    Extends (env.definitionIn resolve' members' visible definition).run
      (env.definitionIn resolve members visible definition).run := by
  unfold definitionIn
  cases definition.type with
  | implicit =>
    cases definition.default with
    | none => exact Extends.refl _
    | some default => exact extends_defaultIn hresolve hmembers visible default
  | primitive | named => exact hresolve _

theorem extends_definitionsIn (visible : Typed) (definitions : List Definition) :
    Extends (env.definitionsIn resolve' members' visible definitions)
      (env.definitionsIn resolve members visible definitions) := by
  induction definitions generalizing visible with
  | nil => exact Extends.refl _
  | cons definition rest ih =>
    apply (extends_definitionIn hresolve hmembers visible definition).bind
    intro type?
    cases type? with
    | none => exact ih visible
    | some type =>
      apply (ih (visible ++ [(definition.name, type)])).bind
      intro others
      exact Extends.refl _

theorem extends_blockIn (decl : FunctionDecl) (role : BlockRole) :
    Extends (env.blockIn resolve' members' decl role) (env.blockIn resolve members decl role) := by
  apply (extends_definitionsIn hresolve hmembers [] decl.parameterDefinitions).bind
  intro parameters
  cases role with
  | parameters => exact Extends.refl _
  | results => exact extends_definitionsIn hresolve hmembers parameters decl.resultDefinitions

theorem extends_membersIn (object : Ty) :
    Extends (env.membersIn resolve' members' object) (env.membersIn resolve members object) := by
  cases object with
  | record name =>
    simp only [membersIn]
    cases env.document.record? name with
    | none => exact Extends.refl _
    | some decl => exact extends_definitionsIn hresolve hmembers [] decl.members
  | generated owner part =>
    cases part with
    | row =>
      simp only [membersIn]
      cases env.document.table? owner with
      | none => exact Extends.refl _
      | some decl => exact extends_columnTypesIn hresolve decl.columns
    | parameters | results =>
      simp only [membersIn]
      cases env.document.function? owner with
      | none => exact Extends.refl _
      | some decl => exact extends_blockIn hresolve hmembers decl _
  | primitive | enumeration | table | function | void => exact Extends.refl _

theorem extends_answerIn {assignable assignable' : Ty → Ty → Option Bool}
    (hassignable : ∀ target value, Extends (assignable' target value) (assignable target value))
    (query : TypeQuery) :
    Extends (env.answerIn resolve' members' assignable' query)
      (env.answerIn resolve members assignable query) := by
  cases query with
  | path path => exact (hresolve (.named path)).map _
  | written type => exact (hresolve type).map _
  | member owner name => exact (extends_memberIn hresolve hmembers owner name).map _
  | members object => exact (hmembers object).map _
  | functionMembers decl role => exact (extends_blockIn hresolve hmembers decl role).map _
  | default visible expression =>
    exact (extends_defaultIn hresolve hmembers visible expression).map _
  | assignable target value => exact (hassignable target value).map _

end Step

/-! ### More steps -/

variable {env : TypeEnv} {steps more : Nat}

/-- Either more steps, or so many that no more are needed. -/
theorem extends_resolveIn (h : steps ≤ more ∨ env.columnCount < more) (type : WrittenType) :
    Extends (env.resolveIn more type).run (env.resolveIn steps type).run := by
  intro found hfound
  by_cases hle : steps ≤ more
  · exact resolveWithin_mono hfound hle
  · have hcount : env.columnCount < more := h.resolve_left hle
    cases hmore : env.resolveWithin more type with
    | some found' =>
      have hsame := resolveWithin_mono hmore (Nat.le_of_not_le hle)
      exact hmore.trans (hsame.symm.trans hfound)
    | none =>
      have hbound : env.resolveWithin (env.columnCount + 1) type = none := by
        by_contra hne
        obtain ⟨found', hfound'⟩ := Option.ne_none_iff_exists'.1 hne
        cases hmore.symm.trans (resolveWithin_mono hfound' hcount)
      cases (resolveWithin_eq_none hbound steps).symm.trans hfound

theorem membersWithin_of_notMem {visiting : List Ty} {object : Ty} (h : object ∉ env.objectTypes) :
    env.membersWithin (steps + 1) visiting object = some [] := by
  rw [membersWithin]
  split
  · rfl
  · exact membersIn_of_notMem h

theorem extends_membersWithin {visiting : List Ty}
    (h : steps ≤ more ∨ unmet env.objectTypes visiting + env.columnCount + 2 ≤ more) (object : Ty) :
    Extends (env.membersWithin more visiting object) (env.membersWithin steps visiting object) := by
  induction steps generalizing more visiting object with
  | zero => exact Extends.of_none
  | succ steps ih =>
    obtain ⟨more, rfl⟩ : ∃ more', more = more' + 1 := ⟨more - 1, by omega⟩
    by_cases hobject : object ∈ env.objectTypes
    · rw [membersWithin, membersWithin]
      by_cases hvisiting : object ∈ visiting
      · rw [if_pos hvisiting, if_pos hvisiting]
        exact Extends.refl _
      · rw [if_neg hvisiting, if_neg hvisiting]
        have hlt := unmet_cons_lt hobject hvisiting
        apply extends_membersIn
        · exact extends_resolveIn (by omega)
        · intro inner
          exact ih (by omega) inner
    · rw [membersWithin_of_notMem hobject, membersWithin_of_notMem hobject]
      exact Extends.refl _

theorem mem_objectTypes_of_membersWithin {visiting : List Ty} {object : Ty} {typed : Typed}
    {entry : String × Ty} (h : env.membersWithin steps visiting object = some typed)
    (hentry : entry ∈ typed) : object ∈ env.objectTypes := by
  by_contra hobject
  cases steps with
  | zero => cases h
  | succ steps =>
    rw [membersWithin_of_notMem hobject] at h
    cases h
    cases hentry

theorem extends_assignableWithin {comparing : List (Ty × Ty)}
    (h : steps ≤ more ∨ unmet env.objectPairs comparing + env.memberSteps + 1 ≤ more)
    (target value : Ty) :
    Extends (env.assignableWithin more comparing target value)
      (env.assignableWithin steps comparing target value) := by
  induction steps generalizing more comparing target value with
  | zero => exact Extends.of_none
  | succ steps ih =>
    obtain ⟨more, rfl⟩ : ∃ more', more = more' + 1 := ⟨more - 1, by omega⟩
    have hmembers (object : Ty) :
        Extends (env.membersWithin more [] object) (env.membersWithin steps [] object) := by
      apply extends_membersWithin
      unfold memberSteps at h
      omega
    rw [assignableWithin, assignableWithin]
    split
    · exact Extends.refl _
    split
    · exact Extends.refl _
    split
    · exact Extends.refl _
    next hcomparing =>
      apply (hmembers value).bind_of_mem
      intro offered hoffered
      apply (hmembers target).bind_of_mem
      intro wanted hwanted
      apply Extends.allM
      intro want hwant
      apply Extends.anyM
      intro offer hoffer
      split
      · have htarget := mem_objectTypes_of_membersWithin hwanted hwant
        have hvalue := mem_objectTypes_of_membersWithin hoffered hoffer
        have hlt := unmet_cons_lt (mem_objectPairs_of_mem htarget hvalue) hcomparing
        apply ih
        omega
      · exact Extends.refl _

theorem extends_answerWithin (h : steps ≤ more ∨ env.stepBound ≤ more) (query : TypeQuery) :
    Extends (env.answerWithin more query) (env.answerWithin steps query) := by
  rw [answerWithin_eq_answerIn, answerWithin_eq_answerIn]
  apply extends_answerIn
  · apply extends_resolveIn
    unfold stepBound memberSteps at h
    omega
  · apply extends_membersWithin
    unfold stepBound memberSteps at h
    omega
  · exact extends_assignableWithin h

/-! ### The functions that know no bound -/

theorem extends_settled_resolve? (type : WrittenType) :
    Extends (settled (env.resolve? type)).run (env.resolveIn steps type).run := by
  intro found hfound
  have hcount := extends_resolveIn (.inr (Nat.lt_succ_self env.columnCount)) type found hfound
  exact congrArg some (congrArg Option.join hcount)

theorem extends_membersOutside (visiting : List Ty) (object : Ty) :
    Extends (some (env.membersOutside visiting object))
      (env.membersWithin steps visiting object) := by
  induction steps generalizing visiting object with
  | zero => exact Extends.of_none
  | succ steps ih =>
    rw [membersOutside]
    by_cases hobject : object ∈ env.objectTypes
    · rw [membersWithin]
      by_cases hvisiting : object ∈ visiting
      · rw [if_pos hvisiting, dif_neg (fun h => h.2 hvisiting)]
        exact Extends.refl _
      · rw [if_neg hvisiting, dif_pos ⟨hobject, hvisiting⟩,
          ← membersIn_eq (fun _ => rfl) (fun _ => rfl)]
        exact extends_membersIn extends_settled_resolve? (ih (object :: visiting)) object
    · rw [membersWithin_of_notMem hobject, dif_neg (fun h => hobject h.1)]
      exact Extends.refl _

theorem extends_assignableAmong (comparing : List (Ty × Ty)) (target value : Ty) :
    Extends (some (env.assignableAmong comparing target value))
      (env.assignableWithin steps comparing target value) := by
  induction steps generalizing comparing target value with
  | zero => exact Extends.of_none
  | succ steps ih =>
    rw [assignableWithin]
    split
    · next hsame =>
      rw [assignableAmong, if_pos hsame]
      exact Extends.refl _
    split
    · next hne hobjects =>
      rw [assignableAmong, if_neg hne, if_pos hobjects]
      exact Extends.refl _
    split
    · next hne hobjects hcomparing =>
      rw [assignableAmong, if_neg hne, if_neg hobjects, if_pos hcomparing]
      exact Extends.refl _
    next hne hobjects hcomparing =>
      rw [assignableAmong_eq_all hne hobjects hcomparing]
      apply (extends_membersOutside [] value).of_bind
      apply (extends_membersOutside [] target).of_bind
      apply Extends.all
      intro want
      apply Extends.any
      intro offer
      cases offer.1 == want.1 with
      | false => exact Extends.refl _
      | true => exact ih _ want.2 offer.2

theorem extends_answer (query : TypeQuery) :
    Extends (some (env.answer query)) (env.answerWithin steps query) := by
  rw [← answerIn_eq (fun _ => rfl) (fun _ => rfl) (fun _ _ => rfl), answerWithin_eq_answerIn]
  exact extends_answerIn extends_settled_resolve? (extends_membersOutside [])
    (extends_assignableAmong []) query

/-! ### Questions that are settled -/

/-- A question is settled if some number of steps is enough. -/
theorem answer?_eq_some_iff {query : TypeQuery} {found : TypeAnswer} :
    env.answer? query = some found ↔ ∃ steps, env.answerWithin steps query = some found := by
  constructor
  · intro h
    exact ⟨env.stepBound, h⟩
  · rintro ⟨steps, h⟩
    exact extends_answerWithin (.inr (Nat.le_refl env.stepBound)) query found h

theorem eq_answer_of_answer? {query : TypeQuery} {found : TypeAnswer}
    (h : env.answer? query = some found) : found = env.answer query :=
  (Option.some.inj (extends_answer query found h)).symm

theorem isSettled_iff : env.isSettled = true ↔ env.ColumnsEnd := by
  rw [isSettled, List.all_eq_true]
  constructor
  · intro hall
    by_contra hback
    obtain ⟨column, hcolumn, hnone⟩ := exists_unsettled hback
    obtain ⟨found, hfound⟩ := Option.isSome_iff_exists.1 (hall column hcolumn)
    obtain ⟨steps, hsteps⟩ := answer?_eq_some_iff.1 hfound
    cases (hnone steps).symm.trans hsteps
  · intro hend column _
    have hsettled := answerWithin_eq hend (Nat.le_refl _) (.written column.type)
    exact Option.isSome_iff_exists.2 ⟨_, answer?_eq_some_iff.2 ⟨_, hsettled⟩⟩

instance (env : TypeEnv) : Decidable env.ColumnsEnd := decidable_of_iff _ isSettled_iff

end TypeEnv

end DecisionLang
