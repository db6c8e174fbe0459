import DecisionLang.Checking.Expression
import DecisionLang.Proofs.Checking.Coverage
import DecisionLang.Proofs.Checking.Expression
import DecisionLang.Proofs.Checking.Rerun

/-!
# Checking expressions again

Each rule of the checker does the same in both runs if its parts do, and if the names that it looks
up itself are among those that the documents agree about. Main statement:
`Rerun.repeats_expression`.
-/

namespace DecisionLang

namespace Expr

def declaredName? : Expr → Option String
  | declare _ _ called _ => some called
  | _ => none

def declaredNames (whole : Expr) : List String := whole.subterms.filterMap declaredName?

theorem declaredName?_mem_declaredNames {whole : Expr} {name : String}
    (h : whole.declaredName? = some name) : name ∈ whole.declaredNames :=
  List.mem_filterMap.2 ⟨whole, mem_subterms_self whole, h⟩

theorem declaredNames_subset {part whole : Expr} (h : part ∈ whole.subterms) :
    part.declaredNames ⊆ whole.declaredNames := by
  intro name hname
  obtain ⟨item, hitem, hdeclared⟩ := List.mem_filterMap.1 hname
  exact List.mem_filterMap.2 ⟨item, mem_subterms_trans hitem h, hdeclared⟩

end Expr

namespace Rerun

open Check

variable {again : Rerun} {names : String → Prop} {α : Type} {P : α → Prop} {item left right : Expr}
  {items : List Expr} {mark : Mark}

/-- The checking of an expression does the same in both runs. -/
def Repeated (again : Rerun) (names : String → Prop) (item : Expr) : Prop :=
  again.Repeats names (expression again.first item) (expression again.second item) again.Typed

theorem typed_result? (rules : OperatorRules) (operator : Operator) (left right : Ty) :
    again.Typed (rules.result? operator left right) := by
  intro type htype
  obtain ⟨rule, _, rfl⟩ := Option.map_eq_some_iff.1 htype
  trivial

/-! ### Parts

What a part is besides its checking is the same in both runs. Rewriting with this keeps the two ways
of checking from being compared. -/

@[simp] theorem expression_partOf (env : TypeEnv) (item : Expr) :
    (partOf env item).expression = item := rfl

@[simp] theorem id_partOf (env : TypeEnv) (item : Expr) : (partOf env item).id = item.id := rfl

@[simp] theorem reference_partOf (env : TypeEnv) (item : Expr) :
    (partOf env item).reference = item.reference := rfl

theorem repeats_checkAll (h : ∀ item ∈ items, again.Repeated names item) :
    again.Repeats names (Part.checkAll (items.map (partOf again.first)))
      (Part.checkAll (items.map (partOf again.second))) fun _ => True := by
  induction items with
  | nil => exact .pure trivial
  | cons item items ih =>
    obtain ⟨hitem, hitems⟩ := List.forall_mem_cons.1 h
    exact hitem.discard.bind fun _ _ => ih hitems

theorem repeats_wanting (h : again.Repeated names item) (wanted : Ty) (fault : Ty → Fault)
    (reference : Reference) :
    again.Repeats names
      (do
        if let some type ← (partOf again.first item).check then
          if type ≠ wanted then report (fault type) reference)
      (do
        if let some type ← (partOf again.second item).check then
          if type ≠ wanted then report (fault type) reference) fun _ => True := by
  refine Repeats.bind h fun type? _ => ?_
  cases type? with
  | none => exact .pure trivial
  | some type => exact repeats_reportIf (.pure trivial)

theorem repeats_checkExactly (h : again.Repeated names item) (wanted : Ty) :
    again.Repeats names ((partOf again.first item).checkExactly wanted)
      ((partOf again.second item).checkExactly wanted) fun _ => True := by
  simp only [Part.checkExactly, reference_partOf]
  exact repeats_wanting h wanted (.expressionType wanted) _

theorem repeats_checkStored (h : again.Repeated names item) {wanted? : Option Ty}
    (hwanted : again.Typed wanted?) :
    again.Repeats names ((partOf again.first item).checkStored again.first wanted?)
      ((partOf again.second item).checkStored again.second wanted?) fun _ => True := by
  refine Repeats.bind h fun type? htype => ?_
  cases wanted? <;> cases type?
  case some.some wanted type =>
    simp only [reference_partOf]
    exact repeats_expectAssignable (hwanted wanted rfl) (htype type rfl) item.reference
  all_goals exact .pure trivial

theorem repeats_body (h : ∀ item ∈ items, again.Repeated names item) {outside : String → Prop} :
    again.Repeats outside (body (items.map (partOf again.first)))
      (body (items.map (partOf again.second))) fun _ => True :=
  repeats_inScope names (repeats_checkAll h)

theorem repeats_optional {item? : Option Expr} {rest rest' : Option Ty → Check α}
    (h : ∀ item ∈ item?, again.Repeated names item)
    (hrest : ∀ type?, again.Typed type? → again.Repeats names (rest type?) (rest' type?) P) :
    again.Repeats names
      (match item?.map (partOf again.first) with
        | some part => do
          let type? ← part.check
          rest type?
        | none => do
          let type? ← pure none
          rest type?)
      (match item?.map (partOf again.second) with
        | some part => do
          let type? ← part.check
          rest' type?
        | none => do
          let type? ← pure none
          rest' type?) P := by
  cases item? with
  | none => exact hrest none typed_none
  | some item => exact Repeats.bind (h item rfl) hrest

/-! ### Rules -/

theorem repeats_pathType? {path : NamePath} (hroot : again.named path.root)
    (hid : again.past.findings.Lacks mark.id) :
    again.Repeats names (pathType? again.first mark path) (pathType? again.second mark path)
      again.Typed := by
  refine (repeats_resolve? path).bind fun found? hfound => ?_
  cases found? with
  | some found =>
    exact (repeats_recordVariable hid found).bind fun _ _ => .pure (typed_some (hfound found rfl))
  | none =>
    refine .bindGet fun state _ => ?_
    have hsame := (again.agrees.rootType? hroot).bind fun root hroot =>
      again.agrees.follow? hroot path.members
    dsimp only
    rw [hsame.eq, show (state.after again.past).scopes = state.scopes from rfl]
    refine repeats_reportIf (.pure ?_)
    split
    · exact typed_none
    · exact hsame.among

theorem repeats_binary (hleft : again.Repeated names left) (hright : again.Repeated names right)
    (operator : Operator) :
    again.Repeats names
      (binary again.first mark (partOf again.first left) operator (partOf again.first right))
      (binary again.second mark (partOf again.second left) operator (partOf again.second right))
      again.Typed := by
  refine Repeats.bind hleft fun left? _ => Repeats.bind hright fun right? _ => ?_
  cases left? <;> cases right?
  case some.some =>
    dsimp only
    rw [again.agrees.rules]
    exact repeats_reportIf (.pure (typed_result? _ _ _ _))
  all_goals exact .pure typed_none

/-- What was recorded for the target of an assignment was recorded in the same run. -/
theorem repeats_assignment (hleft : again.Repeated names left)
    (hright : again.Repeated names right) (hid : again.past.findings.Lacks left.id) :
    again.Repeats names
      (assignment again.first mark (partOf again.first left) (partOf again.first right))
      (assignment again.second mark (partOf again.second left) (partOf again.second right))
      again.Typed := by
  have hrefuse : again.Repeats names (refuseTarget (partOf again.first left))
      (refuseTarget (partOf again.second left)) again.Typed := by
    simp only [refuseTarget, expression_partOf, reference_partOf]
    exact repeats_refuse _ _ typed_none
  have hsame : (partOf again.second left).isTarget = (partOf again.first left).isTarget := by
    simp only [Part.isTarget, expression_partOf]
  unfold assignment
  rw [hsame]
  split
  · exact hrefuse.bind fun _ hrefused => (Repeats.discard hright).bind fun _ _ => .pure hrefused
  · refine Repeats.bind hleft fun target? htarget => Repeats.bind hright fun value? hvalue => ?_
    cases target? with
    | none => exact .pure typed_none
    | some wanted =>
      refine .bindGet fun state _ => ?_
      have hfind : (state.after again.past).findings.resolved.find? (partOf again.second left).id =
          state.findings.resolved.find? (partOf again.first left).id := by
        rw [id_partOf, id_partOf]
        refine (Recorded.find?_append _ _ _).trans ?_
        rw [hid.resolved, Option.none_or]
      rw [hfind]
      split
      · exact hrefuse
      · cases value? with
        | none => exact .pure typed_none
        | some offered =>
          simp only [expression_partOf]
          rw [again.agrees.assignable (htarget wanted rfl) (hvalue offered rfl)]
          exact repeats_reportIf (.pure (typed_some trivial))

theorem repeats_introduce {declared : Declared} (hname : names declared.name)
    (hid : again.past.findings.Lacks declared.id) (origin : Origin) {type : Ty}
    (htype : type.Among again.named) :
    again.Repeats names (introduce declared origin type) (introduce declared origin type)
      fun _ => True :=
  (repeats_recordDefinition hid type).bind fun _ _ => (repeats_declare hname htype).discard

theorem repeats_declaration (declared : Declared) (hname : names declared.name)
    (hid : again.past.findings.Lacks declared.id) (htype : declared.type.Among again.named)
    {default : Option Expr} (hdefault : ∀ value ∈ default, again.Repeated names value)
    (origin : Origin) :
    again.Repeats names
      (declaration again.first declared origin (default.map (partOf again.first)))
      (declaration again.second declared origin (default.map (partOf again.second)))
      fun _ => True := by
  obtain ⟨hsame, hamong⟩ := again.agrees.resolve? htype
  have hreference (env : TypeEnv) : (default.map (partOf env)).elim declared.reference
      Part.reference = default.elim declared.reference Expr.reference := by
    cases default <;> rfl
  unfold declaration
  dsimp only
  rw [hsame, hreference, hreference, Option.isNone_map, Option.isNone_map]
  split
  · exact repeats_report _ _
  · refine repeats_optional hdefault fun offered? hoffered => ?_
    cases hwanted : again.first.resolve? declared.type with
    | none =>
      cases offered? with
      | none => exact repeats_reportIf (.pure trivial)
      | some offered => exact repeats_introduce hname hid origin (hoffered offered rfl)
    | some wanted =>
      cases offered? with
      | none => exact repeats_introduce hname hid origin (hamong wanted hwanted)
      | some offered =>
        dsimp only
        rw [again.agrees.assignable (hamong wanted hwanted) (hoffered offered rfl)]
        split
        · exact repeats_introduce hname hid origin (hamong wanted hwanted)
        · exact repeats_report _ _

theorem repeats_condition (h : again.Repeated names item) (keyword : Keyword) :
    again.Repeats names (condition keyword (partOf again.first item))
      (condition keyword (partOf again.second item)) fun _ => True := by
  simp only [condition, reference_partOf]
  exact repeats_wanting h .boolean (.conditionType keyword) _

theorem repeats_case {value : Option Expr} {body : List Expr}
    (h : ∀ part ∈ (Expr.case mark value body).branchParts, again.Repeated names part)
    (subject? : Option Ty) (hasDefault : Bool) :
    again.Repeats names
      (case subject? hasDefault
        ⟨value.map (partOf again.first), partOf again.first (.case mark value body)⟩)
      (case subject? hasDefault
        ⟨value.map (partOf again.second), partOf again.second (.case mark value body)⟩)
      fun _ => True := by
  have hbranch : again.Repeated names (.case mark value body) :=
    h _ (List.mem_append_right value.toList (.head _))
  have hrest (result : Bool) : again.Repeats names
      (do discard (expression again.first (.case mark value body)); return result)
      (do discard (expression again.second (.case mark value body)); return result)
      fun _ => True := (Repeats.discard hbranch).bind fun _ _ => .pure trivial
  unfold case
  cases value with
  | some item =>
    have hitem : again.Repeated names item := h item (.head _)
    refine Repeats.bind hitem fun value? _ => ?_
    cases subject? <;> cases value?
    case some.some =>
      simp only [reference_partOf]
      exact repeats_reportIf (hrest _)
    all_goals exact hrest _
  | none =>
    simp only [reference_partOf]
    exact repeats_reportIf (hrest _)

theorem repeats_cases {cases : List Expr}
    (h : ∀ branch ∈ cases, ∀ part ∈ branch.branchParts, again.Repeated names part)
    (subject? : Option Ty) (hasDefault : Bool) :
    again.Repeats names
      ((cases.filterMap (caseOf again.first)).foldlM (case subject?) hasDefault)
      ((cases.filterMap (caseOf again.second)).foldlM (case subject?) hasDefault)
      fun _ => True := by
  induction cases generalizing hasDefault with
  | nil => exact .pure trivial
  | cons branch cases ih =>
    obtain ⟨hbranch, hcases⟩ := List.forall_mem_cons.1 h
    cases branch with
    | case mark value body =>
      exact (repeats_case hbranch subject? hasDefault).bind fun hasDefault _ => ih hcases hasDefault
    | _ => exact ih hcases hasDefault

theorem repeats_switch {subject : Expr} {cases : List Expr}
    (hsubject : again.Repeated names subject)
    (hcases : ∀ branch ∈ cases, ∀ part ∈ branch.branchParts, again.Repeated names part) :
    again.Repeats names
      (switch (partOf again.first subject) (cases.filterMap (caseOf again.first)))
      (switch (partOf again.second subject) (cases.filterMap (caseOf again.second)))
      again.Typed := by
  refine Repeats.bind hsubject fun subject? _ => ?_
  exact (repeats_cases hcases subject? false).discard.bind fun _ _ => .pure (typed_some trivial)

theorem repeats_indexed (h : again.Repeated names item) {table : String}
    (htable : again.named table) :
    again.Repeats names (indexed again.first mark table (partOf again.first item))
      (indexed again.second mark table (partOf again.second item)) again.Typed := by
  obtain ⟨hsame, hamong⟩ := again.agrees.rootType? htable
  refine (repeats_checkExactly h .number).bind fun _ _ => ?_
  rw [hsame]
  split
  · next name hname =>
    have hnamed : again.named name := hamong _ hname
    exact .pure (typed_some hnamed)
  · exact repeats_refuse _ _ typed_none

theorem repeats_receiveMember {member : String × Ty} (hmember : member.2.Among again.named)
    (reference : Reference) :
    again.Repeats names (receiveMember again.first reference member)
      (receiveMember again.second reference member) fun _ => True := by
  refine .bindGet fun state hstate => ?_
  rw [show (state.after again.past).scopes = state.scopes from rfl]
  cases hfind : state.scopes.find? member.1 with
  | none => exact repeats_report _ _
  | some target =>
    dsimp only
    rw [again.agrees.assignable (hstate.find? hfind) hmember]
    exact repeats_reportIf (.pure trivial)

theorem repeats_spreadAssignment (h : again.Repeated names item) :
    again.Repeats names (spreadAssignment again.first mark (partOf again.first item))
      (spreadAssignment again.second mark (partOf again.second item)) again.Typed := by
  refine Repeats.bind h fun results? hresults => ?_
  cases results? with
  | none => exact .pure typed_none
  | some results =>
    obtain ⟨hsame, hamong⟩ := again.agrees.members (hresults results rfl)
    simp only [expression_partOf, hsame]
    split
    · exact repeats_refuse _ _ typed_none
    · refine (repeats_forM fun member hmember => ?_).bind fun _ _ => .pure (typed_some trivial)
      exact repeats_receiveMember (hamong member hmember) mark.reference

/-! ### Calls -/

theorem repeats_sameNamed (flow : Flow) (reference : Reference) {member : String × Ty}
    (hmember : member.2.Among again.named) :
    again.Repeats names (sameNamed again.first flow reference member)
      (sameNamed again.second flow reference member) fun _ => True := by
  refine .bindGet fun state hstate => ?_
  rw [show (state.after again.past).scopes = state.scopes from rfl]
  cases hfind : state.scopes.find? member.1 with
  | none => exact .pure trivial
  | some found =>
    have hfound := hstate.find? hfind
    cases flow with
    | intoMember =>
      dsimp only
      rw [again.agrees.assignable hmember hfound]
      exact repeats_reportIf (.pure trivial)
    | intoVariable =>
      dsimp only
      rw [again.agrees.assignable hfound hmember]
      exact repeats_reportIf (.pure trivial)

theorem repeats_sameNamedMembers (flow : Flow) {object : Ty} (hobject : object.Among again.named)
    (reference : Reference) :
    again.Repeats names (sameNamedMembers again.first flow object reference)
      (sameNamedMembers again.second flow object reference) fun _ => True := by
  obtain ⟨hsame, hamong⟩ := again.agrees.members hobject
  unfold sameNamedMembers
  rw [hsame]
  exact repeats_forM fun member hmember => repeats_sameNamed flow reference (hamong member hmember)

theorem repeats_make (making : Making) {type : NamePath} (htype : again.named type.root)
    (typeReference : Reference) :
    again.Repeats names (make again.first mark making type typeReference)
      (make again.second mark making type typeReference) again.Typed := by
  have hwritten : WrittenType.Among again.named (.named type) := by
    rintro _ ⟨⟩
    exact htype
  have hargument : again.Repeats names
      (typeArgument again.first making.function.spelling type typeReference)
      (typeArgument again.second making.function.spelling type typeReference) again.Typed := by
    obtain ⟨hsame, hamong⟩ := again.agrees.resolve? hwritten
    unfold typeArgument TypeEnv.resolvePath?
    rw [hsame]
    cases hobject : again.first.resolve? (.named type) with
    | none => exact repeats_refuse _ _ typed_none
    | some object =>
      dsimp only
      split
      · exact .pure (typed_some (hamong object hobject))
      · exact repeats_refuse _ _ typed_none
  refine hargument.bind fun object? hobject => ?_
  cases object? with
  | none => exact .pure typed_none
  | some object =>
    cases making with
    | new => exact .pure hobject
    | fill =>
      exact (repeats_sameNamedMembers _ (hobject object rfl) _).bind fun _ _ => .pure hobject

theorem repeats_extract (h : again.Repeated names item) :
    again.Repeats names (extract again.first mark (partOf again.first item))
      (extract again.second mark (partOf again.second item)) again.Typed := by
  refine Repeats.bind h fun object? hobject => ?_
  cases object? with
  | none => exact .pure typed_none
  | some object =>
    simp only [reference_partOf]
    split
    · exact repeats_refuse _ _ typed_none
    · refine (repeats_sameNamedMembers _ (hobject object rfl) _).bind fun _ _ => ?_
      exact .pure (typed_some trivial)

theorem repeats_column {table : TableDecl} (htable : (Node.table table).RefersAmong again.named)
    (name : ColumnName) :
    again.Repeats names (column again.first table name) (column again.second table name)
      again.Typed := by
  unfold column
  split
  · exact repeats_refuse _ _ typed_none
  · cases hcolumn : table.column? name.column with
    | none => exact repeats_refuse _ _ typed_none
    | some found =>
      have hfound := htable.column found (List.mem_of_find?_eq_some hcolumn)
      obtain ⟨hsame, hamong⟩ := again.agrees.resolve? hfound
      dsimp only
      rw [hsame]
      exact .pure hamong

theorem repeats_searched {column? type? : Option Ty} (hcolumn : again.Typed column?)
    (htype : again.Typed type?) (reference : Reference) :
    again.Repeats names (searched again.first column? type? reference)
      (searched again.second column? type? reference) fun _ => True := by
  cases column? <;> cases type?
  case some.some column type =>
    exact repeats_expectAssignable (hcolumn column rfl) (htype type rfl) reference
  all_goals exact .pure trivial

section LookUp

variable {discriminator : Option Expr} {value : Expr} (table : String) (tableReference : Reference)
  (discriminatorColumn : Option ColumnName) (searchColumn : ColumnName)
  (resultColumn : Option ColumnName)

theorem repeats_resultColumn {decl : TableDecl} (hdecl : (Node.table decl).RefersAmong again.named)
    (hname : again.named decl.name) (resultColumn : Option ColumnName) :
    again.Repeats names
      (match resultColumn with
        | some name => column again.first decl name
        | none => return some (.generated decl.name .row))
      (match resultColumn with
        | some name => column again.second decl name
        | none => return some (.generated decl.name .row)) again.Typed := by
  cases resultColumn with
  | none => exact .pure (typed_some hname)
  | some name => exact repeats_column hdecl name

theorem repeats_lookUpColumns {decl : TableDecl} (hdecl : (Node.table decl).RefersAmong again.named)
    (hname : again.named decl.name) {discriminator? value? : Option Ty}
    (hdiscriminator : again.Typed discriminator?) (hvalue : again.Typed value?) :
    again.Repeats names
      (lookUpColumns again.first ⟨table, tableReference, discriminator.map (partOf again.first),
        partOf again.first value, discriminatorColumn, searchColumn, resultColumn⟩ decl
        discriminator? value?)
      (lookUpColumns again.second ⟨table, tableReference, discriminator.map (partOf again.second),
        partOf again.second value, discriminatorColumn, searchColumn, resultColumn⟩ decl
        discriminator? value?) again.Typed := by
  unfold lookUpColumns
  simp only [reference_partOf]
  refine (repeats_column hdecl searchColumn).bind fun search? hsearch => ?_
  refine (repeats_searched hsearch hvalue _).bind fun _ _ => ?_
  cases discriminatorColumn with
  | none => exact repeats_resultColumn hdecl hname _
  | some name =>
    refine (repeats_column hdecl name).bind fun type? htype => ?_
    cases discriminator with
    | none => exact repeats_resultColumn hdecl hname _
    | some part =>
      simp only [Option.map_some, reference_partOf]
      exact (repeats_searched htype hdiscriminator _).bind fun _ _ =>
        repeats_resultColumn hdecl hname _

theorem repeats_lookUp (hdiscriminator : ∀ item ∈ discriminator, again.Repeated names item)
    (hvalue : again.Repeated names value) (htable : again.named table) :
    again.Repeats names
      (lookUp again.first ⟨table, tableReference, discriminator.map (partOf again.first),
        partOf again.first value, discriminatorColumn, searchColumn, resultColumn⟩)
      (lookUp again.second ⟨table, tableReference, discriminator.map (partOf again.second),
        partOf again.second value, discriminatorColumn, searchColumn, resultColumn⟩)
      again.Typed := by
  refine repeats_optional hdiscriminator fun discriminator? hdiscriminator? => ?_
  refine Repeats.bind hvalue fun value? hvalue? => ?_
  dsimp only
  rw [Document.table?_congr (again.agrees.called table htable)]
  cases hdecl : again.first.document.table? table with
  | none => exact repeats_refuse _ _ typed_none
  | some decl =>
    obtain ⟨hname, hrefers⟩ := again.agrees.refers_table htable hdecl
    exact repeats_lookUpColumns table tableReference discriminatorColumn searchColumn resultColumn
      hrefers (hname ▸ htable) hdiscriminator? hvalue?

end LookUp

theorem repeats_declaredCall (h : ∀ item ∈ items, again.Repeated names item)
    (hids : ∀ item ∈ items, again.past.findings.Lacks item.id) {function : String}
    (hfunction : again.named function) :
    again.Repeats names
      (declaredCall again.first mark function (items.map (partOf again.first)))
      (declaredCall again.second mark function (items.map (partOf again.second))) again.Typed := by
  have hresults : again.Typed (some (.generated function .results)) := typed_some hfunction
  match items with
  | [] => exact .pure hresults
  | [item] =>
    have hspread : (partOf again.second item).isSpread = (partOf again.first item).isSpread := by
      simp only [Part.isSpread, expression_partOf]
    unfold declaredCall
    simp only [List.map_cons, List.map_nil, hspread, id_partOf, reference_partOf]
    split
    · refine (repeats_recordType (hids item (.head _)) _).bind fun _ _ => ?_
      have hparameters : Ty.Among again.named (.generated function .parameters) := hfunction
      exact (repeats_sameNamedMembers _ hparameters _).bind fun _ _ => .pure hresults
    · have hparameters : again.Typed (some (.generated function .parameters)) :=
        typed_some hfunction
      exact (repeats_checkStored (h item (.head _)) hparameters).bind fun _ _ => .pure hresults
  | first :: second :: rest =>
    have hlength : ((first :: second :: rest).map (partOf again.second)).length =
        ((first :: second :: rest).map (partOf again.first)).length := by
      rw [List.length_map, List.length_map]
    refine (repeats_checkAll h).bind fun _ _ => ?_
    rw [hlength]
    exact (repeats_report _ _).bind fun _ _ => .pure hresults

theorem repeats_libraryCall (h : ∀ item ∈ items, again.Repeated names item)
    (function : LibraryFunction) :
    again.Repeats names (libraryCall mark function (items.map (partOf again.first)))
      (libraryCall mark function (items.map (partOf again.second))) again.Typed := by
  have hpairs (env : TypeEnv) : (((items.map (partOf env)).zip function.parameters).forM
      fun pair => pair.1.checkExactly (.primitive pair.2)) =
        (items.zip function.parameters).forM fun pair =>
          (partOf env pair.1).checkExactly (.primitive pair.2) := by
    rw [List.zip_map_left]
    exact List.forM_map
  unfold libraryCall
  simp only [List.length_map, ← List.map_drop, hpairs]
  refine (repeats_checkAll fun item hitem => h item (List.mem_of_mem_drop hitem)).bind fun _ _ => ?_
  refine repeats_reportIf
    (Repeats.bind (P := fun _ => True) ?_ fun _ _ => .pure (typed_some trivial))
  refine repeats_forM fun pair hpair => ?_
  exact repeats_checkExactly (h pair.1 (List.of_mem_zip hpair).1) _

theorem repeats_call (h : ∀ item ∈ items, again.Repeated names item)
    (hids : ∀ item ∈ items, again.past.findings.Lacks item.id) {function : String}
    (hfunction : again.named function) :
    again.Repeats names (call again.first mark function (items.map (partOf again.first)))
      (call again.second mark function (items.map (partOf again.second))) again.Typed := by
  unfold call
  rw [Document.function?_congr (again.agrees.called function hfunction)]
  split
  · exact repeats_declaredCall h hids hfunction
  · split
    · exact repeats_libraryCall h _
    · exact (repeats_checkAll h).bind fun _ _ => repeats_refuse _ _ typed_none

/-! ### Expressions -/

theorem Fits.self {whole : Expr} (h : again.Fits (.expression whole)) :
    (∀ name ∈ whole.referredName?, again.named name) ∧ again.past.findings.Lacks whole.id :=
  ⟨(Node.Everywhere.self h).1, (Node.Everywhere.self h).2 _ rfl⟩

theorem repeats_derive {whole : Expr} (hwhole : again.Fits (.expression whole))
    (hname : ∀ name ∈ whole.declaredName?, names name)
    (h : ∀ part ∈ whole.checkedParts, again.Repeated names part) :
    again.Repeats names
      (derive again.first whole fun inner _ => expression again.first inner)
      (derive again.second whole fun inner _ => expression again.second inner) again.Typed := by
  obtain ⟨hrefers, hid⟩ := hwhole.self
  cases whole with
  | literal => exact .pure (typed_some trivial)
  | name | path => exact repeats_pathType? (hrefers _ rfl) hid
  | binary _ left _ right => exact repeats_binary (h left (.head _)) (h right (.tail _ (.head _))) _
  | assign _ target value =>
    refine repeats_assignment (h target (.head _)) (h value (.tail _ (.head _))) ?_
    exact (Fits.self (Node.Everywhere.child hwhole (.head _))).2
  | declare mark type name default =>
    have hpart (env : TypeEnv) := @childPart?_eq env (.declare mark type name default)
      default fun _ => Option.mem_toList.2
    rw [derive, derive, hpart, hpart]
    have hdeclaration := repeats_declaration ⟨mark.id, name, type, mark.reference⟩
      (hname name rfl) hid hrefers (fun value hvalue => h value (Option.mem_toList.2 hvalue)) .code
    exact hdeclaration.bind fun _ _ => .pure (typed_some trivial)
  | group _ inner => exact h inner (.head _)
  | indexed _ _ index => exact repeats_indexed (h index (.head _)) (hrefers _ rfl)
  | make => exact repeats_make _ (hrefers _ rfl) _
  | extract _ object => exact repeats_extract (h object (.head _))
  | lookUp mark function table tableReference discriminator value discriminatorColumn searchColumn
      resultColumn =>
    have hpart (env : TypeEnv) := @childPart?_eq env
      (.lookUp mark function table tableReference discriminator value discriminatorColumn
        searchColumn resultColumn) discriminator
      fun _ hitem => List.mem_append_left [value] (Option.mem_toList.2 hitem)
    rw [derive, derive, hpart, hpart]
    refine repeats_lookUp _ _ _ _ _ (fun item hitem => h item ?_) (h value ?_) (hrefers _ rfl)
    · exact List.mem_append_left [value] (Option.mem_toList.2 hitem)
    · exact List.mem_append_right discriminator.toList (.head _)
  | call mark function arguments =>
    have hparts (env : TypeEnv) := @childParts_eq env (.call mark function arguments)
      arguments fun _ hitem => hitem
    rw [derive, derive, hparts, hparts]
    refine repeats_call h (fun item hitem => ?_) (hrefers _ rfl)
    exact (Fits.self (Node.Everywhere.child hwhole hitem)).2
  | ifThen mark condition lines alternatives =>
    have hlines (env : TypeEnv) := @childParts_eq env
      (.ifThen mark condition lines alternatives) lines
      fun _ hitem => .tail _ (List.mem_append_left alternatives hitem)
    have halternatives (env : TypeEnv) := @childParts_eq env
      (.ifThen mark condition lines alternatives) alternatives
      fun _ hitem => .tail _ (List.mem_append_right lines hitem)
    rw [derive, derive, hlines, hlines, halternatives, halternatives]
    refine (repeats_condition (h condition (.head _)) _).bind fun _ _ => ?_
    have hbody (line : Expr) (hline : line ∈ lines) : again.Repeated names line :=
      h line (.tail _ (List.mem_append_left alternatives hline))
    refine (repeats_body hbody).bind fun _ _ => ?_
    refine (repeats_checkAll fun branch hbranch => ?_).bind fun _ _ => .pure (typed_some trivial)
    exact h branch (.tail _ (List.mem_append_right lines hbranch))
  | elseIf mark condition lines =>
    have hlines (env : TypeEnv) := @childParts_eq env (.elseIf mark condition lines) lines
      fun _ hitem => .tail _ hitem
    rw [derive, derive, hlines, hlines]
    refine (repeats_condition (h condition (.head _)) _).bind fun _ _ => ?_
    have hbody (line : Expr) (hline : line ∈ lines) : again.Repeated names line :=
      h line (.tail _ hline)
    exact (repeats_body hbody).bind fun _ _ => .pure (typed_some trivial)
  | otherwise mark lines =>
    have hlines (env : TypeEnv) := @childParts_eq env (.otherwise mark lines) lines
      fun _ hitem => hitem
    rw [derive, derive, hlines, hlines]
    exact (repeats_body h).bind fun _ _ => .pure (typed_some trivial)
  | case mark value lines =>
    have hlines (env : TypeEnv) := @childParts_eq env (.case mark value lines) lines
      fun _ hitem => List.mem_append_right value.toList hitem
    rw [derive, derive, hlines, hlines]
    exact (repeats_body h).bind fun _ _ => .pure (typed_some trivial)
  | switch mark subject cases =>
    have hcases (env : TypeEnv) := @caseParts_eq env (.switch mark subject cases) cases
      fun _ hitem => .tail _ hitem
    rw [derive, derive, hcases, hcases]
    refine repeats_switch (h subject (.head _)) fun branch hbranch part hpart => ?_
    exact h part (.tail _ (List.mem_flatMap.2 ⟨branch, hbranch, hpart⟩))
  | spread => exact repeats_refuse _ _ typed_none
  | spreadAssign _ invoked => exact repeats_spreadAssignment (h invoked (.head _))

/-- Variables that come into scope have the names of variables that the expression declares. -/
theorem repeats_expression {whole : Expr} (hwhole : again.Fits (.expression whole))
    (h : ∀ name ∈ whole.declaredNames, names name) : again.Repeated names whole := by
  induction hsize : sizeOf whole using Nat.strongRecOn generalizing whole with
  | ind size ih =>
    subst hsize
    unfold Repeated
    rw [expression, expression]
    refine (repeats_derive hwhole ?_ fun part hpart => ?_).bind fun type? htype => ?_
    · exact fun name hname => h name (Expr.declaredName?_mem_declaredNames hname)
    · have hsub := Expr.mem_subterms_of_mem_checkedParts hpart
      refine ih (sizeOf part) (Expr.sizeOf_lt_of_mem_checkedParts hpart) (hwhole.subterm hsub) ?_
        rfl
      exact fun name hname => h name (Expr.declaredNames_subset hsub hname)
    · cases type? with
      | none => exact .pure htype
      | some type => exact (repeats_recordType hwhole.self.2 type).bind fun _ _ => .pure htype

end Rerun

end DecisionLang
