import DecisionLang.Proofs.Typing.Defaults
import DecisionLang.Typing.Assignable

/-!
# Types of values

Statements have no value: their type is `void`. No name stands for that type, no member has it, no
operator takes or gives it, and nothing but a statement can be stored where it is wanted. Main
statements: `TypeEnv.follow?_ne_void` and `TypeEnv.functionMembers_valued`.
-/

namespace DecisionLang

theorem Ty.primitive_ne_void (kind : Primitive) : primitive kind ≠ .void := nofun

theorem Ty.ne_void_of_isObject {type : Ty} (h : type.isObject = true) : type ≠ .void := by
  rintro rfl
  cases h

/-- Operands and results of operators are values. -/
theorem OperatorRules.ne_void_of_result? {rules : OperatorRules} {operator : Operator}
    {left right result : Ty} (h : rules.result? operator left right = some result) :
    left ≠ .void ∧ right ≠ .void ∧ result ≠ .void := by
  obtain ⟨rule, hrule, rfl⟩ := Option.map_eq_some_iff.1 h
  have haccepts (pattern : OperandPattern) : pattern.accepts .void = false := by cases pattern <;> rfl
  have hboth := List.find?_some hrule
  simp only [OperatorRule.accepts, Bool.and_eq_true] at hboth
  obtain ⟨⟨⟨_, hleft⟩, hright⟩, _⟩ := hboth
  refine ⟨?_, ?_, nofun⟩
  · rintro rfl
    cases (haccepts rule.left).symm.trans hleft
  · rintro rfl
    cases (haccepts rule.right).symm.trans hright

namespace Typed

def Valued (typed : Typed) : Prop := ∀ item ∈ typed, item.2 ≠ .void

theorem valued_nil : Valued [] := List.forall_mem_nil _

variable {typed : Typed} {name : String} {type : Ty}

theorem Valued.of_first? (h : typed.Valued) (hfirst : typed.first? name = some type) :
    type ≠ .void :=
  h (name, type) (mem_of_first? hfirst)

theorem Valued.of_last? (h : typed.Valued) (hlast : typed.last? name = some type) :
    type ≠ .void :=
  Valued.of_first? (fun item hitem => h item (List.mem_reverse.1 hitem)) hlast

end Typed

namespace TypeEnv

variable {env : TypeEnv} {type : Ty}

/-! ### Written types -/

theorem rootType?_ne_void {name : String} (h : env.rootType? name = some type) : type ≠ .void := by
  unfold rootType? at h
  split at h <;> cases h <;> nofun

theorem settled_ne_void {written : WrittenType} (h : env.step written = .settled (some type)) :
    type ≠ .void := by
  have hpart (name : String) {part? : Option GeneratedPart}
      (h : part?.map (Ty.generated name) = some type) : type ≠ .void := by
    obtain ⟨part, _, rfl⟩ := Option.map_eq_some_iff.1 h
    nofun
  have hcolumn (column? : Option Column)
      (h : column?.elim (.settled none) (fun column => .column column.type) =
        Resolution.settled (some type)) : type ≠ .void := by cases column? <;> cases h
  unfold step at h
  split at h
  · cases h
    nofun
  · cases h
  · injection h with h
    unfold namedType? at h
    split at h
    · cases h
      nofun
    · exact rootType?_ne_void (Option.mem_filter_iff.1 h).1
  · unfold memberStep at h
    split at h
    · injection h with h
      exact hpart _ h
    · split at h
      · cases h
      · split at h
        · cases h
          nofun
        · split at h
          · cases h
          · exact hcolumn _ h
    · cases h
  · cases h

theorem resolveWithin_ne_void {steps : Nat} {written : WrittenType}
    (h : env.resolveWithin steps written = some (some type)) : type ≠ .void := by
  cases steps with
  | zero => cases h
  | succ steps =>
    rw [resolveWithin] at h
    split at h
    · next hstep =>
      cases h
      exact settled_ne_void hstep
    · obtain ⟨found, _, hfound⟩ := Option.map_eq_some_iff.1 h
      exact Ty.ne_void_of_isObject (Option.mem_filter_iff.1 hfound).2

theorem resolve?_ne_void {written : WrittenType} (h : env.resolve? written = some type) :
    type ≠ .void :=
  resolveWithin_ne_void (Option.join_eq_some_iff.1 h)

theorem columnType?_ne_void {table column : String} (h : env.columnType? table column = some type) :
    type ≠ .void := by
  simp only [columnType?, Option.bind_eq_bind, Option.bind_eq_some_iff] at h
  obtain ⟨_, _, _, _, htype⟩ := h
  exact resolve?_ne_void htype

/-! ### Members -/

section Members

variable {listed : Ty → Typed} (hlisted : ∀ object, (listed object).Valued)
include hlisted

theorem memberFrom?_ne_void {owner : Ty} {member : String}
    (h : env.memberFrom? listed owner member = some type) : type ≠ .void := by
  cases owner with
  | enumeration name =>
    obtain ⟨decl, _, hmember⟩ := Option.bind_eq_some_iff.1 h
    split at hmember
    · cases hmember
      nofun
    · cases hmember
  | table name =>
    obtain ⟨decl, _, hmember⟩ := Option.bind_eq_some_iff.1 h
    split at hmember
    · cases hmember
      nofun
    · split at hmember
      · cases hmember
        nofun
      · exact columnType?_ne_void hmember
  | function name =>
    obtain ⟨part, _, rfl⟩ := Option.map_eq_some_iff.1 h
    nofun
  | record | generated => exact (hlisted _).of_first? h
  | primitive | void => cases h

theorem followFrom?_ne_void {owner : Ty} (howner : owner ≠ .void) {path : List String}
    (h : env.followFrom? listed owner path = some type) : type ≠ .void := by
  unfold followFrom? at h
  induction path generalizing owner with
  | nil =>
    cases h
    exact howner
  | cons member path ih =>
    rw [List.foldlM_cons] at h
    obtain ⟨inner, hinner, hrest⟩ := Option.bind_eq_some_iff.1 h
    exact ih (memberFrom?_ne_void hlisted hinner) hrest

theorem defaultFrom?_ne_void {visible : Typed} (hvisible : visible.Valued) {item : Expr}
    (h : env.defaultFrom? listed visible item = some type) : type ≠ .void := by
  induction item using Expr.operand_induction with
  | group mark inner ih => exact ih h
  | binary mark left operator right =>
    simp only [defaultFrom?, Option.bind_eq_bind, Option.bind_eq_some_iff] at h
    obtain ⟨_, _, _, _, hresult⟩ := h
    exact (OperatorRules.ne_void_of_result? hresult).2.2
  | other item hgroup hbinary =>
    cases item with
    | group mark inner => exact absurd rfl (hgroup mark inner)
    | binary mark left operator right => exact absurd rfl (hbinary mark left operator right)
    | literal =>
      cases h
      nofun
    | name _ word => exact hvisible.of_last? h
    | path _ names =>
      simp only [defaultFrom?, Option.bind_eq_bind, Option.bind_eq_some_iff] at h
      obtain ⟨root, hroot, hmembers⟩ := h
      refine followFrom?_ne_void hlisted ?_ hmembers
      rcases Option.or_eq_some_iff.1 hroot with hroot | ⟨_, hroot⟩
      · exact hvisible.of_last? hroot
      · exact rootType?_ne_void hroot
    | make => exact Ty.ne_void_of_isObject (Option.mem_filter_iff.1 h).2
    | lookUp _ _ _ _ _ _ _ _ resultColumn =>
      cases resultColumn with
      | none =>
        cases h
        nofun
      | some column => exact columnType?_ne_void h
    | call =>
      unfold defaultFrom? at h
      split at h
      · cases h
        nofun
      · obtain ⟨library, _, rfl⟩ := Option.map_eq_some_iff.1 h
        nofun
    | _ => cases h

theorem definitionFrom?_ne_void {visible : Typed} (hvisible : visible.Valued)
    {item : Definition} (h : env.definitionFrom? listed visible item = some type) :
    type ≠ .void := by
  unfold definitionFrom? at h
  split at h
  · obtain ⟨value, _, htype⟩ := Option.bind_eq_some_iff.1 h
    exact defaultFrom?_ne_void hlisted hvisible htype
  · exact resolve?_ne_void h

theorem definitionsFrom_valued {visible : Typed} (hvisible : visible.Valued)
    (items : List Definition) : (env.definitionsFrom listed visible items).Valued := by
  induction items generalizing visible with
  | nil => exact Typed.valued_nil
  | cons item items ih =>
    rw [definitionsFrom]
    split
    · next type htype =>
      have hnew := definitionFrom?_ne_void hlisted hvisible htype
      refine List.forall_mem_cons.2 ⟨hnew, ih ?_⟩
      exact List.forall_mem_append.2 ⟨hvisible, List.forall_mem_singleton.2 hnew⟩
    · exact ih hvisible

theorem blockFrom_valued (decl : FunctionDecl) (role : BlockRole) :
    (env.blockFrom listed decl role).Valued := by
  cases role with
  | parameters => exact definitionsFrom_valued hlisted Typed.valued_nil _
  | results =>
    exact definitionsFrom_valued hlisted (definitionsFrom_valued hlisted Typed.valued_nil _) _

theorem membersFrom_valued (object : Ty) : (env.membersFrom listed object).Valued := by
  cases object with
  | record name =>
    simp only [membersFrom]
    cases env.document.record? name with
    | none => exact Typed.valued_nil
    | some decl => exact definitionsFrom_valued hlisted Typed.valued_nil _
  | generated owner part =>
    cases part with
    | row =>
      simp only [membersFrom]
      cases env.document.table? owner with
      | none => exact Typed.valued_nil
      | some decl =>
        intro entry hentry
        obtain ⟨item, _, hfound⟩ := List.mem_filterMap.1 hentry
        obtain ⟨type, htype, rfl⟩ := Option.map_eq_some_iff.1 hfound
        exact resolve?_ne_void htype
    | parameters | results =>
      simp only [membersFrom]
      cases env.document.function? owner with
      | none => exact Typed.valued_nil
      | some decl =>
        rw [Option.elim_some]
        exact blockFrom_valued hlisted decl _
  | _ => exact Typed.valued_nil

end Members

theorem membersOutside_valued (env : TypeEnv) (visiting : List Ty) (object : Ty) :
    (env.membersOutside visiting object).Valued := by
  -- Members are listed while their own type is visited, so fewer types are left to visit.
  induction hunmet : unmet env.objectTypes visiting using Nat.strongRecOn
    generalizing visiting object with
  | ind size ih =>
    subst hunmet
    rw [membersOutside]
    split
    · next hmem =>
      exact membersFrom_valued (fun inner => ih _ (unmet_cons_lt hmem.1 hmem.2) _ inner rfl) object
    · exact Typed.valued_nil

/-- Where a path leads from a value, there is a value. -/
theorem follow?_ne_void {owner : Ty} (howner : owner ≠ .void) {path : List String}
    (h : env.follow? owner path = some type) : type ≠ .void :=
  followFrom?_ne_void (env.membersOutside_valued []) howner h

theorem functionMembers_valued (env : TypeEnv) (decl : FunctionDecl) (role : BlockRole) :
    (env.functionMembers decl role).Valued :=
  blockFrom_valued (env.membersOutside_valued []) decl role

/-! ### Assignability -/

theorem ne_void_of_assignable {wanted offered : Ty} (hwanted : wanted ≠ .void)
    (h : env.assignable wanted offered = true) : offered ≠ .void := by
  rintro rfl
  rw [assignable, assignableAmong, if_neg hwanted] at h
  simp [Ty.isObject] at h

end TypeEnv

end DecisionLang
