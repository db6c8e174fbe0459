import DecisionLang.Proofs.Checking.Rules
import DecisionLang.Proofs.Tree.Lookup

/-!
# Rules for calls

Object functions, table functions, declared functions and library functions each establish their
own typing rule. Arguments that are checked and then found to be too many or too few are an error,
so nothing has to be said about their types.
-/

namespace DecisionLang.Check

variable {env : TypeEnv}

theorem sound_forM_keyless {α : Type} {items : List α} {f : α → Check PUnit}
    (h : ∀ item ∈ items, Sound (f item) [] fun _ _ => True) :
    Sound (items.forM f) [] fun _ _ => True := by
  have hall := sound_forM h
  rw [List.flatMap_eq_nil_iff.2 fun _ _ => rfl] at hall
  exact hall.weaken fun _ _ _ => trivial

/-! ### Objects -/

theorem sound_sameNamed (flow : Flow) (reference : Reference) (member : String × Ty) :
    Sound (sameNamed env flow reference member) [] fun _ _ => True := by
  apply sound_get.bind
  intro state
  split
  · cases flow <;> exact sound_unless.weaken fun _ _ _ _ => trivial
  · exact .pure fun _ _ => trivial

theorem sound_sameNamedMembers (flow : Flow) (object : Ty) (reference : Reference) :
    Sound (sameNamedMembers env flow object reference) [] fun _ _ => True :=
  sound_forM_keyless fun member _ => sound_sameNamed flow reference member

theorem sound_typeArgument (function : String) (type : NamePath) (reference : Reference) :
    Sound (typeArgument env function type reference) [] (Yields env fun _ object =>
      env.resolvePath? type = some object ∧ object.isObject = true) := by
  unfold typeArgument
  split
  · next object hobject =>
    split
    · next h => exact .pure fun _ => yields_some.2 fun _ => ⟨hobject, h⟩
    · exact (sound_refuse _ _ _).absurd
  · exact (sound_refuse _ _ _).absurd

theorem sound_make (mark : Mark) (making : Making) (type : NamePath)
    (typeReference : Reference) :
    Sound (make env mark making type typeReference) [] (Yields env fun final object =>
      (Expr.make mark making type typeReference).HasType env final object) := by
  apply (sound_typeArgument making.function.spelling type typeReference).bind
  intro object?
  cases object? with
  | none => exact .pure fun _ h => yields_none.2 (yields_none.1 h)
  | some object =>
    have hresult (final : Findings)
        (h : Yields env (fun _ object => env.resolvePath? type = some object ∧
          object.isObject = true) final (some object)) :
        Yields env (fun final object => (Expr.make mark making type typeReference).HasType env
          final object) final (some object) := by
      apply yields_some.2
      intro hcolumns
      obtain ⟨htype, hobject⟩ := yields_some.1 h hcolumns
      exact .make htype hobject
    cases making with
    | new => exact .pure hresult
    | fill =>
      exact (sound_sameNamedMembers _ _ _).bind fun _ => .pure fun final _ => hresult final

theorem sound_extract {argument : Expr} (h : Checked env argument) (mark : Mark) :
    Sound (extract env mark (partOf env argument)) argument.keys (Yields env fun final type =>
      (Expr.extract mark argument).HasType env final type ∧ argument.AllTyped env final) := by
  apply h.bindRest
  intro object?
  cases object? with
  | none => exact .pure fun _ h => yields_none.2 (yields_none.1 h)
  | some object =>
    dsimp only
    split
    · exact (sound_refuse _ _ _).absurd
    · next hobject =>
      refine (sound_sameNamedMembers _ _ _).bind fun _ => .pure fun final _ hfound hcolumns => ?_
      obtain ⟨htype, hall⟩ := yields_some.1 hfound hcolumns
      exact ⟨.void, rfl, .extract htype (by simpa using hobject), hall⟩

/-! ### Tables -/

theorem sound_column {table : TableDecl} (htable : .table table ∈ env.document.declarations)
    (name : ColumnName) :
    Sound (column env table name) [] (Yields env fun _ type => env.ColumnHas table name type) := by
  unfold column
  split
  · exact (sound_refuse _ _ _).absurd
  · next hname =>
    split
    · exact (sound_refuse _ _ _).absurd
    · next found hfound =>
      refine .pure fun _ hcolumns => ?_
      obtain ⟨type, htype⟩ := Option.isSome_iff_exists.1
        (hcolumns table htable found (List.mem_of_find?_eq_some hfound))
      exact ⟨type, htype, not_not.1 hname, found, hfound, htype⟩

theorem sound_searched (column? type? : Option Ty) (reference : Reference) :
    Sound (searched env column? type? reference) [] fun _ _ =>
      ∀ wanted offered, column? = some wanted → type? = some offered →
        env.assignable wanted offered = true := by
  cases column? with
  | none => exact .pure fun _ => nofun
  | some wanted =>
    cases type? with
    | none => exact .pure fun _ => nofun
    | some offered =>
      apply (sound_expectAssignable env wanted offered reference).weaken
      rintro _ _ hassignable _ _ ⟨⟩ ⟨⟩
      exact hassignable

/-- A value whose type is known goes with a column. -/
def Fits (env : TypeEnv) (table : TableDecl) (name : ColumnName) (offered? : Option Ty) : Prop :=
  ∃ wanted, env.ColumnHas table name wanted ∧
    ∀ offered, offered? = some offered → env.assignable wanted offered = true

theorem Fits.searches {table : TableDecl} {name : ColumnName} {final : Findings} {value : Expr}
    {offered : Ty} (h : Fits env table name (some offered))
    (hvalue : final.type? value = some offered) : final.Searches env table name value := by
  obtain ⟨wanted, hcolumn, hassignable⟩ := h
  exact ⟨wanted, hcolumn, offered, hvalue, hassignable offered rfl⟩

theorem fits_of_searched {table : TableDecl} {name : ColumnName} {final : Findings}
    {column? offered? : Option Ty} (hcolumns : env.ColumnsResolve)
    (hcolumn : Yields env (fun _ type => env.ColumnHas table name type) final column?)
    (hsearched : ∀ wanted offered, column? = some wanted → offered? = some offered →
      env.assignable wanted offered = true) : Fits env table name offered? := by
  obtain ⟨wanted, rfl, hhas⟩ := hcolumn hcolumns
  exact ⟨wanted, hhas, fun offered => hsearched wanted offered rfl⟩

theorem sound_resultColumn {table : TableDecl}
    (htable : .table table ∈ env.document.declarations) (name? : Option ColumnName) :
    Sound (match name? with
      | some name => column env table name
      | none => pure (some (.generated table.name .row))) []
      (Yields env fun _ type => name?.elim (type = .generated table.name .row)
        (env.ColumnHas table · type)) := by
  cases name? with
  | none => exact .pure fun _ => yields_some.2 fun _ => rfl
  | some name => exact sound_column htable name

theorem sound_lookUpColumns {parts : LookUpParts} {table : TableDecl}
    (htable : .table table ∈ env.document.declarations) (discriminator? value? : Option Ty) :
    Sound (lookUpColumns env parts table discriminator? value?) [] fun _ type? =>
      env.ColumnsResolve → Fits env table parts.searchColumn value? ∧
        (∀ name ∈ parts.discriminatorColumn, parts.discriminator.isSome →
          Fits env table name discriminator?) ∧
        ∃ type, type? = some type ∧ parts.resultColumn.elim (type = .generated table.name .row)
          (env.ColumnHas table · type) := by
  unfold lookUpColumns
  apply (sound_column htable parts.searchColumn).bind
  intro search?
  apply (sound_searched search? value? parts.value.reference).bind
  intro _
  have hresult := sound_resultColumn htable parts.resultColumn
  dsimp only
  split
  · next name hname =>
    apply (sound_column htable name).bind
    intro column?
    split
    · next discriminator hdiscriminator =>
      apply (sound_searched column? discriminator? discriminator.reference).bind
      intro _
      apply hresult.weaken
      intro final type? htype hsearched' hcolumn' hsearched hcolumn hcolumns
      refine ⟨fits_of_searched hcolumns hcolumn hsearched, ?_, htype hcolumns⟩
      intro other hother _
      cases hname.symm.trans hother
      exact fits_of_searched hcolumns hcolumn' hsearched'
    · next hnone =>
      apply hresult.weaken
      intro final type? htype _ hsearched hcolumn hcolumns
      refine ⟨fits_of_searched hcolumns hcolumn hsearched, ?_, htype hcolumns⟩
      intro _ _ hsome
      obtain ⟨part, hpart⟩ := Option.isSome_iff_exists.1 hsome
      exact absurd hpart (hnone part)
  · next hnone =>
    apply hresult.weaken
    intro final type? htype hsearched hcolumn hcolumns
    refine ⟨fits_of_searched hcolumns hcolumn hsearched, ?_, htype hcolumns⟩
    intro name hname
    exact absurd hname (hnone name)

/-- The type of a discriminator, if there is one, has been found. -/
def DiscriminatorFound (env : TypeEnv) (final : Findings) (discriminator : Option Expr)
    (type? : Option Ty) : Prop :=
  ∀ item ∈ discriminator, Yields env (Found env · item) final type?

/-- A table function behind its discriminator. -/
def lookUpRest (env : TypeEnv) (parts : LookUpParts) (discriminator? : Option Ty) :
    Check (Option Ty) := do
  let value? ← parts.value.check
  match env.document.table? parts.table with
  | none =>
    report (.unknownTable parts.table) parts.tableReference
    return none
  | some table => lookUpColumns env parts table discriminator? value?

theorem sound_lookUpRest {discriminator : Option Expr} {value : Expr}
    (hvalue : Checked env value) (mark : Mark) (function : TableFunction) (table : String)
    (tableReference : Reference) (discriminatorColumn : Option ColumnName) (searchColumn : ColumnName)
    (resultColumn : Option ColumnName) (discriminator? : Option Ty) :
    Sound (lookUpRest env ⟨table, tableReference, discriminator.map (partOf env), partOf env value,
        discriminatorColumn, searchColumn, resultColumn⟩ discriminator?)
      value.keys fun final type? =>
        DiscriminatorFound env final discriminator discriminator? →
          Yields env (fun final type =>
            (discriminator.isSome = discriminatorColumn.isSome →
              (Expr.lookUp mark function table tableReference discriminator value
                discriminatorColumn searchColumn resultColumn).HasType env final type) ∧
            (∀ item ∈ discriminator, item.AllTyped env final) ∧ value.AllTyped env final)
            final type? := by
  unfold lookUpRest
  apply hvalue.bindRest
  intro value?
  split
  · exact (sound_refuse _ _ _).absurd
  · next decl hdecl =>
    apply (sound_lookUpColumns (Document.mem_declarations_of_table? hdecl).1 discriminator? value?).weaken
    intro final type? hparts hvalue hdiscriminator hcolumns
    obtain ⟨hsearch, hpair, type, rfl, hresult⟩ := hparts hcolumns
    obtain ⟨valueType, rfl, htype, hall⟩ := hvalue hcolumns
    refine ⟨type, rfl, fun hregular => .lookUp hdecl (hsearch.searches htype) ?_ hresult, ?_, hall⟩
    · intro item hitem
      obtain ⟨itemType, rfl, hitemType, _⟩ := hdiscriminator item hitem hcolumns
      rw [Option.mem_def.1 hitem] at hregular
      obtain ⟨column, hcolumn⟩ := Option.isSome_iff_exists.1 hregular.symm
      refine ⟨column, hcolumn, Fits.searches ?_ hitemType⟩
      exact hpair column hcolumn (by rw [Option.mem_def.1 hitem]; rfl)
    · intro item hitem
      obtain ⟨_, _, _, hall⟩ := hdiscriminator item hitem hcolumns
      exact hall

theorem sound_lookUp {discriminator : Option Expr} {value : Expr}
    (hdiscriminator : ∀ item ∈ discriminator, Checked env item) (hvalue : Checked env value)
    (mark : Mark) (function : TableFunction) (table : String) (tableReference : Reference)
    (discriminatorColumn : Option ColumnName) (searchColumn : ColumnName)
    (resultColumn : Option ColumnName) :
    Sound (lookUp env ⟨table, tableReference, discriminator.map (partOf env), partOf env value,
        discriminatorColumn, searchColumn, resultColumn⟩)
      (discriminator.toList.flatMap Expr.keys ++ value.keys) (Yields env fun final type =>
        (discriminator.isSome = discriminatorColumn.isSome →
          (Expr.lookUp mark function table tableReference discriminator value discriminatorColumn
            searchColumn resultColumn).HasType env final type) ∧
        (∀ item ∈ discriminator, item.AllTyped env final) ∧ value.AllTyped env final) := by
  cases discriminator with
  | none =>
    refine (sound_lookUpRest hvalue mark function table tableReference discriminatorColumn
      searchColumn resultColumn none).weaken fun final type? h => ?_
    exact h nofun
  | some item =>
    rw [Option.toList_some, List.flatMap_singleton]
    apply (hdiscriminator item rfl).bind
    intro discriminator?
    refine (sound_lookUpRest hvalue mark function table tableReference discriminatorColumn
      searchColumn resultColumn discriminator?).weaken fun final type? h hitem => h ?_
    rintro _ ⟨⟩
    exact hitem

/-! ### Functions -/

/-- Three points as an argument have the type of the parameters. -/
theorem stores_of_spread {mark : Mark} {function : String} {final : Findings}
    (h : final.types.find? mark.id = some (.generated function .parameters)) :
    final.Stores env (.generated function .parameters) (.spread mark) ∧
      (Expr.spread mark).AllTyped env final := by
  refine ⟨⟨_, h, env.assignable_refl _⟩, ?_⟩
  intro item hitem _
  rw [Expr.checked_eq] at hitem
  obtain rfl := List.mem_singleton.1 hitem
  exact ⟨_, h, .spread⟩

theorem subperm_keys (whole : Expr) : [(.type, whole.id)].Subperm whole.keys := by
  rw [Expr.keys_eq]
  exact List.singleton_subperm_iff.2 (List.mem_append_left _ List.mem_cons_self)

theorem sound_declaredArgument {argument : Expr} (h : Checked env argument) {function : String}
    (mark : Mark) :
    Sound (declaredCall env mark function [partOf env argument]) argument.keys
      fun final type? => type? = some (.generated function .results) ∧
        (env.ColumnsResolve → final.Stores env (.generated function .parameters) argument ∧
          argument.AllTyped env final) := by
  change Sound (if (partOf env argument).isSpread = true then do
      recordType argument.id (.generated function .parameters)
      sameNamedMembers env .intoMember (.generated function .parameters) argument.reference
      return some (Ty.generated function .results)
    else do
      (partOf env argument).checkStored env (some (.generated function .parameters))
      return some (Ty.generated function .results)) _ _
  split
  · next hspread =>
    refine Sound.mono ((sound_recordType argument.id _).bindRest fun _ => ?_)
      (subperm_keys argument) fun _ _ h => h
    refine (sound_sameNamedMembers .intoMember _ _).bind fun _ => .pure fun final _ htype => ?_
    unfold Part.isSpread at hspread
    split at hspread
    · next place heq =>
      obtain rfl : argument = .spread place := heq
      exact ⟨rfl, fun _ => stores_of_spread htype⟩
    · cases hspread
  · refine (sound_checkStored h _).bindRest fun _ => .pure fun final hstored => ?_
    refine ⟨rfl, fun hcolumns => ?_⟩
    obtain ⟨hstores, hall⟩ := hstored hcolumns
    exact ⟨hstores _ rfl, hall⟩

theorem sound_declaredCall {arguments : List Expr} (h : ∀ item ∈ arguments, Checked env item)
    {function : String} (hdeclared : (env.document.function? function).isSome) (mark : Mark) :
    Sound (declaredCall env mark function (arguments.map (partOf env)))
      (arguments.flatMap Expr.keys) (Yields env fun final type =>
        (Expr.call mark function arguments).HasType env final type ∧
          ∀ item ∈ arguments, item.AllTyped env final) := by
  match arguments with
  | [] => exact .pure fun _ => yields_some.2 fun _ => ⟨.declaredCall hdeclared (.inl rfl), nofun⟩
  | [argument] =>
    rw [List.flatMap_singleton]
    apply (sound_declaredArgument (h argument List.mem_cons_self) mark).weaken
    rintro final _ ⟨rfl, hargument⟩ hcolumns
    obtain ⟨hstores, hall⟩ := hargument hcolumns
    refine ⟨_, rfl, .declaredCall hdeclared (.inr ⟨argument, rfl, hstores⟩), ?_⟩
    intro item hitem
    obtain rfl := List.mem_singleton.1 hitem
    exact hall
  | first :: second :: rest =>
    apply (sound_checkAll h).bindRest
    intro _
    exact (sound_refuse _ _ _).absurd

theorem sound_checkParameters {arguments : List Expr} (h : ∀ item ∈ arguments, Checked env item)
    (parameters : List Primitive) :
    Sound (((arguments.map (partOf env)).zip parameters).forM fun (argument, kind) =>
        argument.checkExactly (.primitive kind))
      ((arguments.take parameters.length).flatMap Expr.keys) fun final _ =>
        env.ColumnsResolve → List.Forall₂ (fun argument kind =>
          Found env final argument (.primitive kind)) (arguments.take parameters.length)
          (parameters.take arguments.length) := by
  induction arguments generalizing parameters with
  | nil =>
    rw [List.take_nil]
    exact .pure fun _ _ => .nil
  | cons argument arguments ih =>
    cases parameters with
    | nil => exact .pure fun _ _ => .nil
    | cons kind parameters =>
      have ih := ih (fun item hitem => h item (List.mem_cons_of_mem _ hitem)) parameters
      apply (sound_checkExactly (h argument List.mem_cons_self) _).bind
      intro _
      exact ih.weaken fun final _ htail hhead hcolumns => .cons (hhead hcolumns) (htail hcolumns)

theorem sound_libraryCall {arguments : List Expr} (h : ∀ item ∈ arguments, Checked env item)
    {function : String} (hdeclared : (env.document.function? function).isSome = false)
    {library : LibraryFunction} (hlibrary : LibraryFunction.ofSpelling? function = some library)
    (mark : Mark) :
    Sound (libraryCall mark library (arguments.map (partOf env)))
      (arguments.flatMap Expr.keys) (Yields env fun final type =>
        (Expr.call mark function arguments).HasType env final type ∧
          ∀ item ∈ arguments, item.AllTyped env final) := by
  have hkeys : ((arguments.drop library.parameters.length).flatMap Expr.keys ++
      (arguments.take library.parameters.length).flatMap Expr.keys).Perm
        (arguments.flatMap Expr.keys) := by
    rw [← List.flatMap_append]
    refine List.Perm.flatMap_right _ (List.perm_append_comm.trans ?_)
    rw [List.take_append_drop]
  have hsurplus : ∀ item ∈ arguments.drop library.parameters.length, Checked env item :=
    fun item hitem => h item (List.mem_of_mem_drop hitem)
  unfold libraryCall
  dsimp only
  rw [← List.map_drop, List.length_map]
  refine Sound.mono ((sound_checkAll hsurplus).bind fun _ => ?_) hkeys.subperm fun _ _ h => h
  apply sound_reportIf
  refine (sound_checkParameters h library.parameters).bindRest fun _ => .pure ?_
  intro final hparameters hlength _
  apply yields_some.2
  intro hcolumns
  have hlength := not_not.1 hlength
  have hfound := hparameters hcolumns
  rw [hlength, List.take_length, ← hlength, List.take_length] at hfound
  obtain ⟨hall, htypes⟩ := (List.forall₂_and_left _ _).1 (hfound.imp fun _ _ h => ⟨h.2, h.1⟩)
  exact ⟨.libraryCall hdeclared hlibrary htypes, hall⟩

theorem sound_call {arguments : List Expr} (h : ∀ item ∈ arguments, Checked env item)
    (mark : Mark) (function : String) :
    Sound (call env mark function (arguments.map (partOf env)))
      (arguments.flatMap Expr.keys) (Yields env fun final type =>
        (Expr.call mark function arguments).HasType env final type ∧
          ∀ item ∈ arguments, item.AllTyped env final) := by
  unfold call
  split
  · next hdeclared => exact sound_declaredCall h hdeclared mark
  · next hdeclared =>
    split
    · next library hlibrary =>
      exact sound_libraryCall h (Bool.eq_false_iff.2 hdeclared) hlibrary mark
    · apply (sound_checkAll h).bindRest
      intro _
      exact (sound_refuse _ _ _).absurd

/-! ### Rows and results -/

theorem sound_indexed {index : Expr} (h : Checked env index) (mark : Mark) (table : String) :
    Sound (indexed env mark table (partOf env index)) index.keys (Yields env fun final type =>
      (Expr.indexed mark table index).HasType env final type ∧ index.AllTyped env final) := by
  apply (sound_checkExactly h .number).bindRest
  intro _
  split
  · next name hname =>
    refine .pure fun final hfound => yields_some.2 fun hcolumns => ?_
    obtain ⟨htype, hall⟩ := hfound hcolumns
    exact ⟨.indexed htype hname, hall⟩
  · exact (sound_refuse _ _ _).absurd

theorem sound_receiveMember (reference : Reference) (member : String × Ty) :
    Sound (receiveMember env reference member) [] fun _ _ => True := by
  apply sound_get.bind
  intro state
  split
  · exact (sound_report _ _).absurd
  · exact sound_unless.weaken fun _ _ _ _ => trivial

theorem sound_spreadAssignment {invoked : Expr} (h : Checked env invoked) (mark : Mark) :
    Sound (spreadAssignment env mark (partOf env invoked)) invoked.keys
      (Yields env fun final type =>
        (Expr.spreadAssign mark invoked).HasType env final type ∧
          invoked.AllTyped env final) := by
  apply h.bindRest
  intro results?
  cases results? with
  | none => exact .pure fun _ h => yields_none.2 (yields_none.1 h)
  | some results =>
    dsimp only
    split
    · exact (sound_refuse _ _ _).absurd
    · next hobject =>
      refine (sound_forM_keyless fun member _ => sound_receiveMember _ member).bind fun _ => ?_
      refine .pure fun final _ hfound hcolumns => ?_
      obtain ⟨htype, hall⟩ := yields_some.1 hfound hcolumns
      exact ⟨.void, rfl, .spreadAssign htype (by simpa using hobject), hall⟩

end DecisionLang.Check
