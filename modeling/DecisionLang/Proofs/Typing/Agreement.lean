import DecisionLang.Dependency.Reference
import DecisionLang.Proofs.Tree.Parts
import DecisionLang.Proofs.Typing.Columns
import DecisionLang.Proofs.Typing.Defaults
import DecisionLang.Typing.Assignable

/-!
# Types that rest on some declarations

The answer to a question about types rests on the declarations that the question names, on those
that these refer to, and so on. `TypeEnv.Agrees` says of two documents that they have the same
declarations under certain names, and that these declarations refer to no other names. Then
questions about these names have the same answers in both documents, and the answers are types of
these declarations again. There is one lemma for each function that answers questions; the bounds
that these functions try steps up to belong to the whole document and may differ.
-/

namespace DecisionLang

section Among

variable (named : String → Prop)

/-- The declaration that a type belongs to has one of certain names. -/
def Ty.Among : Ty → Prop
  | .enumeration name | .table name | .record name | .function name => named name
  | .generated owner _ => named owner
  | .primitive _ | .void => True

/-- A type is written with one of certain names, if with any. -/
def WrittenType.Among (type : WrittenType) : Prop := ∀ name ∈ type.rootName?, named name

def Typed.Among (typed : Typed) : Prop := ∀ item ∈ typed, item.2.Among named

theorem Typed.among_nil : Typed.Among named [] := List.forall_mem_nil _

/-- A node and everything below it refer to certain names only. -/
def Node.RefersAmong (node : Node) : Prop :=
  node.Everywhere fun item => ∀ name ∈ item.referredName?, named name

end Among

variable {named : String → Prop}

theorem Ty.among_true (type : Ty) : type.Among fun _ => True := by
  cases type <;> trivial

theorem Declaration.refersAmong_iff {item : Declaration} :
    (Node.ofDeclaration item).RefersAmong named ↔ ∀ name ∈ item.referredNames, named name := by
  unfold referredNames
  simp only [List.mem_eraseDups, List.mem_filterMap]
  exact ⟨fun h name ⟨node, hnode, hname⟩ => h node hnode name hname,
    fun h node hnode name hname => h name ⟨node, hnode, hname⟩⟩

namespace Typed

theorem Among.append {typed typed' : Typed} (h : typed.Among named) (h' : typed'.Among named) :
    Among named (typed ++ typed') := List.forall_mem_append.2 ⟨h, h'⟩

theorem Among.of_first? {typed : Typed} (h : typed.Among named) {name : String} {type : Ty}
    (hfirst : typed.first? name = some type) : type.Among named :=
  h (name, type) (mem_of_first? hfirst)

theorem Among.of_last? {typed : Typed} (h : typed.Among named) {name : String} {type : Ty}
    (hlast : typed.last? name = some type) : type.Among named :=
  Among.of_first? (fun item hitem => h item (List.mem_reverse.1 hitem)) hlast

end Typed

/-- The same type is found twice, and it belongs to a declaration of certain names. -/
structure SameType (named : String → Prop) (found found' : Option Ty) : Prop where
  eq : found' = found
  among : ∀ type ∈ found, type.Among named

/-- The same types are listed twice. -/
structure SameTyped (named : String → Prop) (typed typed' : Typed) : Prop where
  eq : typed' = typed
  among : typed.Among named

namespace SameType

variable {found found' : Option Ty}

theorem none : SameType named .none .none := ⟨rfl, nofun⟩

theorem some {type : Ty} (h : type.Among named) : SameType named (.some type) (.some type) :=
  ⟨rfl, fun _ heq => Option.some.inj heq ▸ h⟩

theorem bind (h : SameType named found found') {rest rest' : Ty → Option Ty}
    (hrest : ∀ type, type.Among named → SameType named (rest type) (rest' type)) :
    SameType named (found.bind rest) (found'.bind rest') := by
  obtain ⟨rfl, hamong⟩ := h
  cases found' with
  | none => exact .none
  | some type => exact hrest type (hamong type rfl)

theorem filter (h : SameType named found found') (keep : Ty → Bool) :
    SameType named (found.filter keep) (found'.filter keep) := by
  obtain ⟨rfl, hamong⟩ := h
  exact ⟨rfl, fun type htype => hamong type (Option.mem_filter_iff.1 htype).1⟩

theorem or {other other' : Option Ty} (h : SameType named found found')
    (hother : SameType named other other') :
    SameType named (found.or other) (found'.or other') := by
  obtain ⟨rfl, hamong⟩ := h
  cases found' with
  | none => exact hother
  | some type => exact .some (hamong type rfl)

end SameType

/-- What the first step of resolving a type comes to belongs to declarations of certain names. -/
def TypeEnv.Resolution.Among (named : String → Prop) : Resolution → Prop
  | .settled found => ∀ type ∈ found, type.Among named
  | .column type => type.Among named

/-- Documents that have the same declarations of certain names, with no others referred to. -/
structure TypeEnv.Agrees (env env' : TypeEnv) (named : String → Prop) : Prop where
  rules : env'.rules = env.rules
  called : ∀ name, named name → env'.document.called name = env.document.called name
  closed : ∀ name, named name → ∀ item ∈ env.document.called name,
    (Node.ofDeclaration item).RefersAmong named

namespace TypeEnv.Agrees

variable {env env' : TypeEnv}

theorem refl (env : TypeEnv) : env.Agrees env fun _ => True :=
  ⟨rfl, fun _ _ => rfl, fun _ _ _ _ _ _ _ _ => trivial⟩

variable (h : env.Agrees env' named) {listed listed' : Ty → Typed}
include h

/-! ### Declarations -/

theorem refers_table {name : String} (hname : named name) {decl : TableDecl}
    (hdecl : env.document.table? name = some decl) :
    decl.name = name ∧ (Node.table decl).RefersAmong named := by
  obtain ⟨hmem, heq⟩ := Document.mem_declarations_of_table? hdecl
  exact ⟨heq, h.closed name hname (.table decl) (Document.mem_called.2 ⟨hmem, heq⟩)⟩

theorem refers_function {name : String} (hname : named name) {decl : FunctionDecl}
    (hdecl : env.document.function? name = some decl) : (Node.function decl).RefersAmong named := by
  obtain ⟨hmem, heq⟩ := Document.mem_declarations_of_function? hdecl
  exact h.closed name hname (.function decl) (Document.mem_called.2 ⟨hmem, heq⟩)

theorem refers_record {name : String} (hname : named name) {decl : RecordDecl}
    (hdecl : env.document.record? name = some decl) : (Node.record decl).RefersAmong named := by
  obtain ⟨hmem, heq⟩ := Document.mem_declarations_of_record? hdecl
  exact h.closed name hname (.record decl) (Document.mem_called.2 ⟨hmem, heq⟩)

/-! ### Types by name -/

theorem rootType? {name : String} (hname : named name) :
    SameType named (env.rootType? name) (env'.rootType? name) := by
  unfold TypeEnv.rootType?
  rw [Document.find?_congr (h.called name hname)]
  cases hfind : env.document.find? name with
  | none => exact .none
  | some item =>
    have hitem : item.name = name := by simpa using List.find?_some hfind
    subst hitem
    cases item with
    | scenario => exact .none
    | _ => exact .some hname

theorem namedType? {name : String} (hname : named name) :
    SameType named (env.namedType? name) (env'.namedType? name) := by
  unfold TypeEnv.namedType?
  split
  · exact .some trivial
  · exact (h.rootType? hname).filter _

/-! ### Written types -/

theorem memberStep {owner : String} (howner : named owner) (member : String) :
    env'.memberStep owner member = env.memberStep owner member ∧
      (env.memberStep owner member).Among named := by
  obtain ⟨hroot, hamong⟩ := h.rootType? howner
  unfold TypeEnv.memberStep
  rw [hroot]
  split
  · next name hname =>
    have hnamed : named name := hamong _ hname
    refine ⟨rfl, fun type htype => ?_⟩
    obtain ⟨part, _, rfl⟩ := Option.map_eq_some_iff.1 htype
    exact hnamed
  · next name hname =>
    have hnamed : named name := hamong _ hname
    rw [Document.table?_congr (h.called name hnamed)]
    refine ⟨rfl, ?_⟩
    split
    · exact SameType.none.among
    next decl hdecl =>
      split
      · have hrow : SameType named (some (.generated name .row)) _ := .some hnamed
        exact hrow.among
      split
      · exact SameType.none.among
      cases hcolumn : decl.column? member with
      | none => exact SameType.none.among
      | some item =>
        exact (h.refers_table hnamed hdecl).2.column item (List.mem_of_find?_eq_some hcolumn)
  · exact ⟨rfl, SameType.none.among⟩

theorem step {type : WrittenType} (htype : type.Among named) :
    env'.step type = env.step type ∧ (env.step type).Among named := by
  unfold TypeEnv.step
  split
  · next kind =>
    have hprimitive : SameType named (some (.primitive kind)) _ := .some trivial
    exact ⟨rfl, hprimitive.among⟩
  · exact ⟨rfl, SameType.none.among⟩
  · obtain ⟨heq, hamong⟩ := h.namedType? (htype _ rfl)
    exact ⟨congrArg Resolution.settled heq, hamong⟩
  · exact h.memberStep (htype _ rfl) _
  · exact ⟨rfl, SameType.none.among⟩

theorem resolveWithin (steps : Nat) {type : WrittenType} (htype : type.Among named) :
    env'.resolveWithin steps type = env.resolveWithin steps type ∧
      ∀ found ∈ env.resolveWithin steps type, ∀ type ∈ found, type.Among named := by
  induction steps generalizing type with
  | zero => exact ⟨rfl, nofun⟩
  | succ steps ih =>
    obtain ⟨heq, hamong⟩ := h.step htype
    rw [TypeEnv.resolveWithin, TypeEnv.resolveWithin, heq]
    cases hstep : env.step type with
    | settled found =>
      rw [hstep] at hamong
      refine ⟨rfl, ?_⟩
      rintro _ ⟨⟩
      exact hamong
    | column next =>
      rw [hstep] at hamong
      obtain ⟨hnext, hfound⟩ := ih hamong
      simp only [hnext]
      refine ⟨trivial, fun found hmem type htype => ?_⟩
      obtain ⟨inner, hinner, rfl⟩ := Option.map_eq_some_iff.1 hmem
      exact hfound inner hinner type (Option.mem_filter_iff.1 htype).1

/-- The documents may have different numbers of columns, but any number of steps that is high
enough for both will do. -/
theorem resolve? {type : WrittenType} (htype : type.Among named) :
    SameType named (env.resolve? type) (env'.resolve? type) := by
  have hlt : env.columnCount < max env.columnCount env'.columnCount + 1 := by omega
  have hlt' : env'.columnCount < max env.columnCount env'.columnCount + 1 := by omega
  obtain ⟨heq, hamong⟩ := h.resolveWithin (max env.columnCount env'.columnCount + 1) htype
  rw [resolve?_eq_join hlt, resolve?_eq_join hlt', heq]
  refine ⟨rfl, fun found hfound => ?_⟩
  exact hamong _ (Option.join_eq_some_iff.1 hfound) found rfl

theorem columnType? {table : String} (htable : named table) (column : String) :
    SameType named (env.columnType? table column) (env'.columnType? table column) := by
  unfold TypeEnv.columnType?
  rw [Document.table?_congr (h.called table htable)]
  cases hdecl : env.document.table? table with
  | none => exact .none
  | some decl =>
    cases hcolumn : decl.column? column with
    | none => simpa [hcolumn] using SameType.none
    | some item =>
      have hitem := (h.refers_table htable hdecl).2.column item (List.mem_of_find?_eq_some hcolumn)
      simpa [hcolumn] using h.resolve? hitem

/-! ### Members -/

section Members

variable (hmembers : ∀ object : Ty, object.Among named →
  SameTyped named (listed object) (listed' object))
include hmembers

theorem memberFrom? {owner : Ty} (howner : owner.Among named) (member : String) :
    SameType named (env.memberFrom? listed owner member)
      (env'.memberFrom? listed' owner member) := by
  cases owner with
  | enumeration name =>
    simp only [TypeEnv.memberFrom?, Document.enumeration?_congr (h.called name howner)]
    refine ⟨rfl, fun type htype => ?_⟩
    obtain ⟨decl, _, htype⟩ := Option.bind_eq_some_iff.1 htype
    split at htype <;> cases htype
    exact howner
  | table name =>
    simp only [TypeEnv.memberFrom?, Document.table?_congr (h.called name howner)]
    cases env.document.table? name with
    | none => exact .none
    | some decl =>
      simp only [Option.bind_some]
      split
      · exact .some howner
      · split
        · exact .some trivial
        · exact h.columnType? howner member
  | function name =>
    refine ⟨rfl, fun type htype => ?_⟩
    obtain ⟨part, _, rfl⟩ := Option.map_eq_some_iff.1 htype
    exact howner
  | record | generated =>
    obtain ⟨heq, hamong⟩ := hmembers _ howner
    simp only [TypeEnv.memberFrom?, heq]
    exact ⟨rfl, fun type htype => hamong.of_first? htype⟩
  | primitive | void => exact .none

theorem followFrom? {owner : Ty} (howner : owner.Among named) (path : List String) :
    SameType named (env.followFrom? listed owner path)
      (env'.followFrom? listed' owner path) := by
  unfold TypeEnv.followFrom?
  induction path generalizing owner with
  | nil => exact .some howner
  | cons member path ih =>
    rw [List.foldlM_cons, List.foldlM_cons]
    exact (h.memberFrom? hmembers howner member).bind fun type htype => ih htype

theorem defaultFrom? {visible : Typed} (hvisible : visible.Among named) {item : Expr}
    (hitem : (Node.expression item).RefersAmong named) :
    SameType named (env.defaultFrom? listed visible item)
      (env'.defaultFrom? listed' visible item) := by
  have hlast (name : String) : SameType named (visible.last? name) (visible.last? name) :=
    ⟨rfl, fun type htype => hvisible.of_last? htype⟩
  induction item using Expr.operand_induction with
  | group mark inner ih => exact ih (hitem.child (.head _))
  | binary mark left operator right ihleft ihright =>
    unfold TypeEnv.defaultFrom?
    refine (ihleft (hitem.child (.head _))).bind fun left _ => ?_
    refine (ihright (hitem.child (.tail _ (.head _)))).bind fun right _ => ?_
    rw [h.rules]
    refine ⟨rfl, fun type htype => ?_⟩
    obtain ⟨rule, _, rfl⟩ := Option.map_eq_some_iff.1 htype
    trivial
  | other item hgroup hbinary =>
    have hself : ∀ name ∈ item.referredName?, named name := hitem.self
    cases item with
    | group mark inner => exact absurd rfl (hgroup mark inner)
    | binary mark left operator right => exact absurd rfl (hbinary mark left operator right)
    | literal => exact .some trivial
    | name _ word => exact hlast word
    | path _ names =>
      unfold TypeEnv.defaultFrom?
      refine ((hlast _).or (h.rootType? (hself _ rfl))).bind fun root hroot => ?_
      exact h.followFrom? hmembers hroot names.members
    | make _ _ type =>
      have htype : WrittenType.Among named (.named type) := fun name hname => hself name hname
      exact (h.resolve? htype).filter _
    | lookUp _ _ table _ _ _ _ _ resultColumn =>
      cases resultColumn with
      | none => exact .some (hself _ rfl)
      | some column => exact h.columnType? (hself _ rfl) column.column
    | call _ function _ =>
      unfold TypeEnv.defaultFrom?
      rw [Document.function?_congr (h.called function (hself _ rfl))]
      split
      · exact .some (hself _ rfl)
      · refine ⟨rfl, fun type htype => ?_⟩
        obtain ⟨library, _, rfl⟩ := Option.map_eq_some_iff.1 htype
        trivial
    | _ => exact .none

theorem definitionFrom? {visible : Typed} (hvisible : visible.Among named) {item : Definition}
    (hitem : (Node.definition item).RefersAmong named) :
    SameType named (env.definitionFrom? listed visible item)
      (env'.definitionFrom? listed' visible item) := by
  have hself : item.type.Among named := hitem.self
  unfold TypeEnv.definitionFrom?
  split
  · cases hdefault : item.default with
    | none => exact .none
    | some value => exact h.defaultFrom? hmembers hvisible (hitem.value value hdefault)
  · exact h.resolve? hself

theorem definitionsFrom {visible : Typed} (hvisible : visible.Among named)
    {items : List Definition} (hitems : ∀ item ∈ items, (Node.definition item).RefersAmong named) :
    SameTyped named (env.definitionsFrom listed visible items)
      (env'.definitionsFrom listed' visible items) := by
  induction items generalizing visible with
  | nil => exact ⟨rfl, Typed.among_nil named⟩
  | cons item items ih =>
    obtain ⟨hitem, hitems⟩ := List.forall_mem_cons.1 hitems
    obtain ⟨heq, hamong⟩ := h.definitionFrom? hmembers hvisible hitem
    rw [TypeEnv.definitionsFrom, TypeEnv.definitionsFrom, heq]
    cases htype : env.definitionFrom? listed visible item with
    | none => exact ih hvisible hitems
    | some type =>
      have hnew : Typed.Among named [(item.name, type)] :=
        List.forall_mem_singleton.2 (hamong type htype)
      obtain ⟨hrest, hall⟩ := ih (hvisible.append hnew) hitems
      exact ⟨congrArg _ hrest, List.forall_mem_cons.2 ⟨hamong type htype, hall⟩⟩

theorem blockFrom {decl : FunctionDecl} (hdecl : (Node.function decl).RefersAmong named)
    (role : BlockRole) :
    SameTyped named (env.blockFrom listed decl role) (env'.blockFrom listed' decl role) := by
  have hparameters := h.definitionsFrom hmembers (Typed.among_nil named) hdecl.parameter
  cases role with
  | parameters => exact hparameters
  | results =>
    unfold TypeEnv.blockFrom
    rw [hparameters.eq]
    exact h.definitionsFrom hmembers hparameters.among hdecl.result

end Members

theorem columnTypes {decl : TableDecl} (hdecl : (Node.table decl).RefersAmong named) :
    SameTyped named (env.columnTypes decl) (env'.columnTypes decl) := by
  have hcolumn (item : Column) (hitem : item ∈ decl.columns) := h.resolve? (hdecl.column item hitem)
  unfold TypeEnv.columnTypes
  constructor
  · exact List.filterMap_congr fun item hitem => by rw [(hcolumn item hitem).eq]
  · intro entry hentry
    obtain ⟨item, hitem, hfound⟩ := List.mem_filterMap.1 hentry
    obtain ⟨type, htype, rfl⟩ := Option.map_eq_some_iff.1 hfound
    exact (hcolumn item hitem).among type htype

theorem membersFrom (hmembers : ∀ object : Ty, object.Among named →
      SameTyped named (listed object) (listed' object)) {object : Ty}
    (hobject : object.Among named) :
    SameTyped named (env.membersFrom listed object) (env'.membersFrom listed' object) := by
  have hnone : SameTyped named [] [] := ⟨rfl, Typed.among_nil named⟩
  cases object with
  | record name =>
    simp only [TypeEnv.membersFrom, Document.record?_congr (h.called name hobject)]
    cases hdecl : env.document.record? name with
    | none => exact hnone
    | some decl =>
      exact h.definitionsFrom hmembers hnone.among (h.refers_record hobject hdecl).member
  | generated owner part =>
    cases part with
    | row =>
      simp only [TypeEnv.membersFrom, Document.table?_congr (h.called owner hobject)]
      cases hdecl : env.document.table? owner with
      | none => exact hnone
      | some decl => exact h.columnTypes (h.refers_table hobject hdecl).2
    | parameters =>
      simp only [TypeEnv.membersFrom, Document.function?_congr (h.called owner hobject)]
      cases hdecl : env.document.function? owner with
      | none => exact hnone
      | some decl => exact h.blockFrom hmembers (h.refers_function hobject hdecl) .parameters
    | results =>
      simp only [TypeEnv.membersFrom, Document.function?_congr (h.called owner hobject)]
      cases hdecl : env.document.function? owner with
      | none => exact hnone
      | some decl => exact h.blockFrom hmembers (h.refers_function hobject hdecl) .results
  | _ => exact hnone

theorem mem_objectTypes {object : Ty} (hobject : object.Among named) :
    object ∈ env'.objectTypes ↔ object ∈ env.objectTypes := by
  have hcalled (either : TypeEnv) : object ∈ either.objectTypes ↔
      ∃ name, named name ∧ ∃ item ∈ either.document.called name, object ∈ objectTypesOf item := by
    simp only [objectTypes, List.mem_flatMap, Document.mem_called]
    constructor
    · rintro ⟨item, hitem, hmem⟩
      refine ⟨item.name, ?_, item, ⟨hitem, rfl⟩, hmem⟩
      cases item <;> simp [objectTypesOf] at hmem
      case record | table =>
        subst hmem
        exact hobject
      case function => rcases hmem with rfl | rfl <;> exact hobject
    · rintro ⟨name, _, item, ⟨hitem, _⟩, hmem⟩
      exact ⟨item, hitem, hmem⟩
  rw [hcalled, hcalled]
  constructor
  · rintro ⟨name, hname, hitem⟩
    exact ⟨name, hname, h.called name hname ▸ hitem⟩
  · rintro ⟨name, hname, hitem⟩
    exact ⟨name, hname, (h.called name hname).symm ▸ hitem⟩

theorem membersOutside (visiting : List Ty) {object : Ty} (hobject : object.Among named) :
    SameTyped named (env.membersOutside visiting object) (env'.membersOutside visiting object) := by
  induction hunmet : unmet env.objectTypes visiting using Nat.strongRecOn
    generalizing visiting object with
  | ind size ih =>
    subst hunmet
    rw [TypeEnv.membersOutside, TypeEnv.membersOutside]
    by_cases hmem : object ∈ env.objectTypes ∧ object ∉ visiting
    · rw [dif_pos hmem, dif_pos ((and_congr_left' (h.mem_objectTypes hobject)).2 hmem)]
      refine h.membersFrom (fun inner hinner => ?_) hobject
      exact ih _ (unmet_cons_lt hmem.1 hmem.2) _ hinner rfl
    · rw [dif_neg hmem, dif_neg (mt (and_congr_left' (h.mem_objectTypes hobject)).1 hmem)]
      exact ⟨rfl, Typed.among_nil named⟩

theorem members {object : Ty} (hobject : object.Among named) :
    SameTyped named (env.members object) (env'.members object) := h.membersOutside [] hobject

theorem follow? {owner : Ty} (howner : owner.Among named) (path : List String) :
    SameType named (env.follow? owner path) (env'.follow? owner path) :=
  h.followFrom? (fun _ => h.members) howner path

theorem functionMembers {decl : FunctionDecl} (hdecl : (Node.function decl).RefersAmong named)
    (role : BlockRole) :
    SameTyped named (env.functionMembers decl role) (env'.functionMembers decl role) :=
  h.blockFrom (fun _ => h.members) hdecl role

/-! ### Assignability -/

theorem mem_objectPairs {target value : Ty} (htarget : target.Among named)
    (hvalue : value.Among named) :
    (target, value) ∈ env'.objectPairs ↔ (target, value) ∈ env.objectPairs := by
  simp [objectPairs, h.mem_objectTypes htarget, h.mem_objectTypes hvalue]

theorem assignableAmong (comparing : List (Ty × Ty)) {target value : Ty}
    (htarget : target.Among named) (hvalue : value.Among named) :
    env'.assignableAmong comparing target value = env.assignableAmong comparing target value := by
  induction hunmet : unmet env.objectPairs comparing using Nat.strongRecOn
    generalizing comparing target value with
  | ind size ih =>
    subst hunmet
    have hpairs := h.mem_objectPairs htarget hvalue
    rw [TypeEnv.assignableAmong, TypeEnv.assignableAmong, (h.members htarget).eq,
      (h.members hvalue).eq]
    split
    · rfl
    split
    · rfl
    split
    · rfl
    by_cases hmem : (target, value) ∈ env.objectPairs ∧ (target, value) ∉ comparing
    · rw [dif_pos hmem, dif_pos ((and_congr_left' hpairs).2 hmem)]
      rw [Bool.eq_iff_iff]
      simp only [List.all_eq_true, List.any_eq_true, Bool.and_eq_true]
      refine forall₂_congr fun wanted hwanted => exists_congr fun offered => ?_
      refine and_congr_right fun hoffered => ?_
      rw [ih _ (unmet_cons_lt hmem.1 hmem.2) _ ((h.members htarget).among wanted hwanted)
        ((h.members hvalue).among offered hoffered) rfl]
    · rw [dif_neg hmem, dif_neg (mt (and_congr_left' hpairs).1 hmem)]

theorem assignable {target value : Ty} (htarget : target.Among named)
    (hvalue : value.Among named) : env'.assignable target value = env.assignable target value :=
  h.assignableAmong [] htarget hvalue

end TypeEnv.Agrees

end DecisionLang
