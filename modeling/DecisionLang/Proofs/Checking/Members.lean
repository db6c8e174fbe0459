import DecisionLang.Proofs.Checking.Introduced

/-!
# Listed and recorded types

The types of definitions are derived twice: when a document is checked, with the variables in scope
(`Check.expression`), and when members are listed, without them (`TypeEnv.defaultFrom?`). In a
document that is checked without errors, a definition is listed with the type that is recorded for
it or not at all, and all of them are listed exactly if each default value tells its type to the
listing: `Dialect.Compiles.listed_iff_tells`.
-/

namespace DecisionLang

namespace TypeEnv

variable (env : TypeEnv)

/-- Type of what a table function gives: a value of the column, or a row. -/
def lookUpType? (table : String) : Option ColumnName → Option Ty
  | some column => env.columnType? table column.column
  | none => some (.generated table .row)

/-- Type of what a function gives, a declared one or, failing that, a library function. -/
def callType? (function : String) : Option Ty :=
  if (env.document.function? function).isSome then some (.generated function .results)
  else (LibraryFunction.ofSpelling? function).map fun library => .primitive library.result

end TypeEnv

namespace Check

variable {α β : Type} {env : TypeEnv}

/-! ### Results of rules -/

/-- Something holds of what an action returns, whatever it logs. -/
def Returns (P : α → Prop) (action : Check α) : Prop :=
  ∀ state : CheckState, P (action.run state).1

namespace Returns

variable {P : α → Prop} {Q : β → Prop} {action : Check α} {rest : α → Check β}

theorem pure {value : α} (h : P value) : Returns P (Pure.pure value) := fun _ => h

theorem bind (h : Returns P action) (hrest : ∀ value, P value → Returns Q (rest value)) :
    Returns Q (action >>= rest) := fun state => hrest _ (h state) _

theorem after (hrest : ∀ value, Returns Q (rest value)) : Returns Q (action >>= rest) :=
  fun _ => hrest _ _

end Returns

theorem returns_make (mark : Mark) (making : Making) (type : NamePath)
    (typeReference : Reference) :
    Returns (fun object? => ∀ object ∈ object?,
      (env.resolvePath? type).filter Ty.isObject = some object)
      (make env mark making type typeReference) := by
  have hargument : Returns (fun object? => ∀ object ∈ object?,
      (env.resolvePath? type).filter Ty.isObject = some object)
      (typeArgument env making.function.spelling type typeReference) := by
    unfold typeArgument
    split
    · next object hobject =>
      split
      · next h =>
        rw [hobject]
        refine .pure ?_
        rintro _ ⟨⟩
        exact Option.filter_some_pos h
      · exact .after fun _ => .pure nofun
    · exact .after fun _ => .pure nofun
  refine hargument.bind fun object? hobject => ?_
  cases object? with
  | none => exact .pure nofun
  | some object =>
    cases making with
    | new => exact .pure hobject
    | fill => exact .after fun _ => .pure hobject

theorem returns_column (table : TableDecl) (name : ColumnName) :
    Returns (fun type? => ∀ type ∈ type?,
      (table.column? name.column).bind (fun column => env.resolve? column.type) = some type)
      (column env table name) := by
  unfold column
  split
  · exact .after fun _ => .pure nofun
  · split
    · exact .after fun _ => .pure nofun
    · next found hfound =>
      rw [hfound]
      exact .pure fun _ htype => htype

theorem returns_lookUpColumns {P : Option Ty → Prop} {parts : LookUpParts} {table : TableDecl}
    (hresult : Returns P (match parts.resultColumn with
      | some name => column env table name
      | none => pure (some (.generated table.name .row)))) (discriminator? value? : Option Ty) :
    Returns P (lookUpColumns env parts table discriminator? value?) := by
  unfold lookUpColumns
  refine .after fun search? => .after fun _ => ?_
  dsimp only
  split
  · refine .after fun type? => ?_
    split
    · exact .after fun _ => hresult
    · exact hresult
  · exact hresult

theorem returns_lookUpColumns_type {parts : LookUpParts} {table : TableDecl}
    (htable : env.document.table? parts.table = some table) (discriminator? value? : Option Ty) :
    Returns (fun type? => ∀ type ∈ type?,
      env.lookUpType? parts.table parts.resultColumn = some type)
      (lookUpColumns env parts table discriminator? value?) := by
  refine returns_lookUpColumns ?_ discriminator? value?
  cases parts.resultColumn with
  | some name =>
    have hcolumn : env.lookUpType? parts.table (some name) =
        (table.column? name.column).bind fun column => env.resolve? column.type := by
      unfold TypeEnv.lookUpType? TypeEnv.columnType?
      rw [htable]
      rfl
    rw [hcolumn]
    exact returns_column table name
  | none =>
    rw [(Document.mem_declarations_of_table? htable).2]
    exact .pure fun _ htype => htype

theorem returns_lookUp_of_table {P : Option Ty → Prop} {parts : LookUpParts} {table : TableDecl}
    (htable : env.document.table? parts.table = some table)
    (h : ∀ discriminator? value?, Returns P (lookUpColumns env parts table discriminator? value?)) :
    Returns P (lookUp env parts) := by
  unfold lookUp
  dsimp only
  rw [htable]
  split <;> exact .after fun discriminator? => .after fun value? => h discriminator? value?

theorem returns_lookUp (parts : LookUpParts) :
    Returns (fun type? => ∀ type ∈ type?,
      env.lookUpType? parts.table parts.resultColumn = some type) (lookUp env parts) := by
  cases htable : env.document.table? parts.table with
  | none =>
    unfold lookUp
    dsimp only
    rw [htable]
    split <;> exact .after fun _ => .after fun _ => .after fun _ => .pure (by rintro _ ⟨⟩)
  | some table => exact returns_lookUp_of_table htable (returns_lookUpColumns_type htable)

theorem returns_call (mark : Mark) (function : String) (arguments : List Part) :
    Returns (fun type? => ∀ type ∈ type?, env.callType? function = some type)
      (call env mark function arguments) := by
  unfold call TypeEnv.callType?
  split
  · unfold declaredCall
    dsimp only
    split
    · exact .pure fun _ htype => htype
    · split
      · exact .after fun _ => .after fun _ => .pure fun _ htype => htype
      · exact .after fun _ => .pure fun _ htype => htype
    · exact .after fun _ => .after fun _ => .pure fun _ htype => htype
  · split
    · next library hlibrary =>
      rw [hlibrary]
      unfold libraryCall
      refine .after fun _ => ?_
      dsimp only
      split
      · exact .after fun _ => .after fun _ => .pure fun _ htype => htype
      · exact .after fun _ => .pure fun _ htype => htype
    · exact .after fun _ => .after fun _ => .pure nofun

theorem run_bind (action : Check α) (rest : α → Check β) (state : CheckState) :
    (action >>= rest).run state = (rest (action.run state).1).run (action.run state).2 := rfl

theorem run_reportIf (condition : Prop) [Decidable condition] (fault : Fault)
    (reference : Reference) (value : α) (state : CheckState) :
    ((if condition then do report fault reference; return value else return value :
      Check α).run state).1 = value := by
  split <;> rfl

theorem expression_fst (whole : Expr) (state : CheckState) :
    ((expression env whole).run state).1 =
      ((derive env whole fun inner _ => expression env inner).run state).1 := by
  rw [expression, run_bind]
  split <;> rfl

/-- Where a name or path that has a type comes from. -/
theorem returns_pathType? {mark : Mark} {path : NamePath} {state : CheckState} {type : Ty}
    (h : ((pathType? env mark path).run state).1 = some type) :
    (∃ found, state.scopes.find? path.root = some found ∧
      env.follow? found.type path.members = some type) ∨
    state.scopes.find? path.root = none ∧
      ∃ root, env.rootType? path.root = some root ∧ env.follow? root path.members = some type := by
  unfold pathType? at h
  rw [run_bind] at h
  split at h
  · next resolved hresolved =>
    obtain ⟨found, hfound, hrest⟩ := Option.bind_eq_some_iff.1 hresolved
    obtain ⟨other, hfollow, hsame⟩ := Option.bind_eq_some_iff.1 hrest
    cases hsame
    cases h
    exact .inl ⟨found, hfound, hfollow⟩
  · next hnone =>
    have htype : (if state.scopes.contains path.root then none
        else (env.rootType? path.root).bind fun root => env.follow? root path.members) =
          some type := (run_reportIf _ _ _ _ _).symm.trans h
    cases hfound : state.scopes.find? path.root with
    | some found => simp [Scopes.contains, hfound] at htype
    | none =>
      rw [if_neg (by simp [Scopes.contains, hfound])] at htype
      exact .inr ⟨rfl, Option.bind_eq_some_iff.1 htype⟩

theorem returns_binary {mark : Mark} {left right : Part} {operator : Operator} {state : CheckState}
    {type : Ty} (h : ((binary env mark left operator right).run state).1 = some type) :
    ∃ leftType rightType, (left.check.run state).1 = some leftType ∧
      (right.check.run (left.check.run state).2).1 = some rightType ∧
      env.rules.result? operator leftType rightType = some type := by
  unfold binary at h
  rw [run_bind, run_bind] at h
  split at h
  · next leftType rightType hleft hright =>
    exact ⟨leftType, rightType, hleft, hright, (run_reportIf _ _ _ _ _).symm.trans h⟩
  · cases h

/-! ### Default values -/

/-- What is visible to a listing is in the innermost scope with its type, and the scopes hide no
other root declaration. -/
structure Mirrors (env : TypeEnv) (visible : Typed) (scopes : Scopes) : Prop where
  known : ∀ name type, visible.last? name = some type →
    ∃ found, scopes.innermost.find? name = some found ∧ found.type = type
  roots : ∀ name, (env.rootType? name).isSome → visible.last? name = none →
    scopes.find? name = none

namespace Mirrors

variable {visible : Typed} {before after : Scopes} {new : Variable}

theorem grows (h : Mirrors env visible before)
    (hgrows : before.Grows (fun name => env.rootType? name = none) after) :
    Mirrors env visible after := by
  constructor
  · intro name type hvisible
    obtain ⟨found, hfound, htype⟩ := h.known name type hvisible
    exact ⟨found, hgrows.find?_innermost hfound, htype⟩
  · intro name hroot hvisible
    refine hgrows.find?_eq_none (fun hnone => ?_) (h.roots name hroot hvisible)
    rw [hnone] at hroot
    cases hroot

theorem find? (h : Mirrors env visible before) {name : String} {type : Ty}
    (hvisible : visible.last? name = some type) :
    ∃ found, before.find? name = some found ∧ found.type = type := by
  obtain ⟨found, hfound, htype⟩ := h.known name type hvisible
  refine ⟨found, ?_, htype⟩
  unfold Scopes.find?
  rw [List.findSome?_cons, hfound]

/-- A variable that is not listed must not have the name of a root declaration. -/
theorem declare?_hidden (h : Mirrors env visible before)
    (hdeclared : before.declare? new = some after) (hroot : env.rootType? new.name = none) :
    Mirrors env visible after := h.grows (.declare? hdeclared hroot)

theorem declare? (h : Mirrors env visible before) (hdeclared : before.declare? new = some after) :
    Mirrors env (visible ++ [(new.name, new.type)]) after := by
  have hgrows : before.Grows (fun name => name = new.name) after := .declare? hdeclared rfl
  constructor
  · intro name type hvisible
    rw [Typed.last?_append_singleton] at hvisible
    split at hvisible
    · next heq =>
      subst heq
      refine ⟨new, ?_, Option.some.inj hvisible⟩
      exact Scopes.find?_innermost_of_declare? hdeclared
    · obtain ⟨found, hfound, htype⟩ := h.known name type hvisible
      exact ⟨found, hgrows.find?_innermost hfound, htype⟩
  · intro name hroot hvisible
    rw [Typed.last?_append_singleton] at hvisible
    split at hvisible
    · cases hvisible
    · next hne => exact hgrows.find?_eq_none (Ne.symm hne) (h.roots name hroot hvisible)

end Mirrors

theorem defaultFrom?_name {members : Ty → Typed} {visible : Typed} {state : CheckState} {type : Ty}
    {mark : Mark} {word : String} (hmirrors : Mirrors env visible state.scopes)
    (htype : ((pathType? env mark (NamePath.ofName word)).run state).1 = some type) :
    env.defaultFrom? members visible (.name mark word) =
      if env.tells members visible (.name mark word) then some type else none := by
  change visible.last? word = if (visible.last? word).isSome then some type else none
  cases hvisible : visible.last? word with
  | none => rfl
  | some known =>
    obtain ⟨found, hfound, rfl⟩ := hmirrors.find? hvisible
    rcases returns_pathType? htype with ⟨other, hother, hfollow⟩ | ⟨hnone, _⟩
    · cases hfound.symm.trans hother
      exact hfollow
    · cases hfound.symm.trans hnone

section

variable {members : Ty → Typed} (hmembers : ∀ object, (members object).Within (env.members object))
include hmembers

/-- A path leads to the same type with fewer members, or nowhere. -/
theorem followFrom?_eq {owner type : Ty} {path : List String}
    (h : env.follow? owner path = some type) :
    env.followFrom? members owner path =
      if (env.followFrom? members owner path).isSome then some type else none := by
  cases hfollow : env.followFrom? members owner path with
  | none => rfl
  | some other => exact (TypeEnv.followFrom?_within hmembers hfollow).symm.trans h

theorem defaultFrom?_path {visible : Typed} {state : CheckState} {type : Ty} {mark : Mark}
    {names : NamePath} (hmirrors : Mirrors env visible state.scopes)
    (htype : ((pathType? env mark names).run state).1 = some type) :
    env.defaultFrom? members visible (.path mark names) =
      if env.tells members visible (.path mark names) then some type else none := by
  change ((visible.last? names.root).or (env.rootType? names.root)).bind
      (fun root => env.followFrom? members root names.members) =
    if ((visible.last? names.root).or (env.rootType? names.root)).any
      (fun root => (env.followFrom? members root names.members).isSome) then some type else none
  cases hvisible : visible.last? names.root with
  | some known =>
    obtain ⟨found, hfound, rfl⟩ := hmirrors.find? hvisible
    rcases returns_pathType? htype with ⟨other, hother, hfollow⟩ | ⟨hnone, _⟩
    · cases hfound.symm.trans hother
      exact followFrom?_eq hmembers hfollow
    · cases hfound.symm.trans hnone
  | none =>
    cases hroot : env.rootType? names.root with
    | none => rfl
    | some root =>
      have hnone := hmirrors.roots names.root (Option.isSome_of_eq_some hroot) hvisible
      rcases returns_pathType? htype with ⟨other, hother, _⟩ | ⟨_, other, hother, hfollow⟩
      · cases hnone.symm.trans hother
      · cases hroot.symm.trans hother
        exact followFrom?_eq hmembers hfollow

/-- A default value that has a type when it is checked has the same type in a listing, or none
where it does not tell it. -/
theorem defaultFrom?_eq {visible : Typed} {value : Expr} {state : CheckState} {type : Ty}
    (hmirrors : Mirrors env visible state.scopes)
    (hinner : ∀ name ∈ value.declaredNames, env.rootType? name = none)
    (htype : ((expression env value).run state).1 = some type) :
    env.defaultFrom? members visible value =
      if env.tells members visible value then some type else none := by
  induction value using Expr.operand_induction generalizing state type with
  | group mark inner ih =>
    rw [expression_fst] at htype
    have hpart : inner ∈ (Expr.group mark inner).children := .head _
    have hsub := Expr.declaredNames_subset (Expr.mem_subterms_of_mem_children hpart)
    exact ih hmirrors (fun name hname => hinner name (hsub hname)) htype
  | binary mark left operator right ihleft ihright =>
    have hpart (part : Expr) (h : part ∈ (Expr.binary mark left operator right).children) :
        ∀ name ∈ part.declaredNames, env.rootType? name = none := fun name hname =>
      hinner name (Expr.declaredNames_subset (Expr.mem_subterms_of_mem_children h) hname)
    have hleft := hpart left (.head _)
    have hright := hpart right (.tail _ (.head _))
    rw [expression_fst] at htype
    obtain ⟨leftType, rightType, hleftType, hrightType, hresult⟩ := returns_binary htype
    have hmiddle := hmirrors.grows (grows_expression env hleft state)
    rw [TypeEnv.defaultFrom?, ihleft hmirrors hleft hleftType, ihright hmiddle hright hrightType,
      TypeEnv.tells]
    cases env.tells members visible left <;> cases env.tells members visible right <;>
      simp [hresult]
  | other value hgroup hbinary =>
    rw [expression_fst] at htype
    cases value with
    | group mark inner => exact absurd rfl (hgroup mark inner)
    | binary mark left operator right => exact absurd rfl (hbinary mark left operator right)
    | literal => exact htype
    | name => exact defaultFrom?_name hmirrors htype
    | path => exact defaultFrom?_path hmembers hmirrors htype
    | make => exact returns_make _ _ _ _ state type htype
    | lookUp _ _ _ _ _ _ _ _ resultColumn =>
      have hresult := returns_lookUp _ state type htype
      cases resultColumn <;> exact hresult
    | call => exact returns_call _ _ _ state type htype
    | _ => rfl

/-! ### Blocks -/

theorem Introduced.definitionFrom?_eq {final : Findings} {before after : Scopes}
    {item : Definition} {visible : Typed} (h : Introduced env final before item after)
    (hmirrors : Mirrors env visible before)
    (hinner : ∀ value ∈ item.default, ∀ name ∈ value.declaredNames, env.rootType? name = none) :
    env.definitionFrom? members visible item =
      if env.tellsDefinition members visible item then final.definitions.find? item.id
      else none := by
  obtain ⟨hrecorded, _, _, htakes⟩ := h
  rw [hrecorded]
  cases htakes with
  | written hwritten htype =>
    have htells : env.tellsDefinition members visible item = true := by
      simp [TypeEnv.tellsDefinition, hwritten]
    rw [if_pos htells, ← htype]
    unfold TypeEnv.definitionFrom?
    split
    · next himplicit => exact absurd himplicit hwritten
    · rfl
  | untyped himplicit hvalue hscopes htype =>
    have hdefault := defaultFrom?_eq hmembers (hscopes ▸ hmirrors) (hinner _ hvalue) htype
    simpa [TypeEnv.definitionFrom?, TypeEnv.tellsDefinition, himplicit, hvalue] using hdefault

end

theorem implicit_of_not_tellsDefinition {members : Ty → Typed} {visible : Typed}
    {item : Definition} (h : env.tellsDefinition members visible item = false) :
    item.type = .implicit := by
  unfold TypeEnv.tellsDefinition at h
  simpa using (Bool.or_eq_false_iff.1 h).1

end Check

namespace Findings

/-- An entry of a listing has the name of a definition and the type that is recorded for it. -/
def Records (findings : Findings) (entry : String × Ty) (item : Definition) : Prop :=
  entry.1 = item.name ∧ findings.definitions.find? item.id = some entry.2

/-- A listing has an entry for each definition of a block, in order, with the recorded type. -/
def ListsAll (findings : Findings) (listing : Typed) (block : List Definition) : Prop :=
  List.Forall₂ findings.Records listing block

/-- A listing is right about every definition of a block that it does not leave out, and leaves none
out exactly on a condition. -/
def ListsAllIf (findings : Findings) (listing : Typed) (block : List Definition)
    (condition : Bool) : Prop :=
  List.SublistForall₂ findings.Records listing block ∧
    (findings.ListsAll listing block ↔ condition = true)

end Findings

namespace Check

variable {env : TypeEnv}

/-- Definitions that came into scope one after the other are listed with their recorded types, all
of them exactly if each tells its type. -/
theorem listed_of_inTurn {members : Ty → Typed}
    (hmembers : ∀ object, (members object).Within (env.members object)) {final : Findings}
    {before after : Scopes} {block : List Definition}
    (h : InTurn (Introduced env final) before block after) (hunhidden : Unhidden env block)
    {visible : Typed} (hmirrors : Mirrors env visible before) :
    final.ListsAllIf (env.definitionsFrom members visible block) block
        (env.tellsAll members visible block) ∧
      Mirrors env (visible ++ env.definitionsFrom members visible block) after := by
  induction h generalizing visible with
  | nil =>
    refine ⟨⟨.nil, fun _ => rfl, fun _ => .nil⟩, ?_⟩
    simpa [TypeEnv.definitionsFrom] using hmirrors
  | @cons before middle after item rest hstep hrest ih =>
    have hrestUnhidden : Unhidden env rest := fun other hother =>
      hunhidden other (List.mem_cons_of_mem _ hother)
    obtain ⟨himplicit, hinner⟩ := hunhidden item List.mem_cons_self
    have htype := hstep.definitionFrom?_eq hmembers hmirrors hinner
    obtain @⟨type, _, _, _, hrecorded, hgrows, hdeclared, _⟩ := hstep
    have hgrown := hmirrors.grows hgrows
    cases htells : env.tellsDefinition members visible item with
    | true =>
      rw [htells, if_pos rfl, hrecorded] at htype
      obtain ⟨⟨hsome, hall⟩, hafter⟩ := ih hrestUnhidden (hgrown.declare? hdeclared)
      have hhead : final.Records (item.name, type) item := ⟨rfl, hrecorded⟩
      simp only [TypeEnv.definitionsFrom, TypeEnv.tellsAll, htype, htells, Bool.true_and]
      refine ⟨⟨.cons hhead hsome, ?_⟩, by simpa using hafter⟩
      exact List.forall₂_cons.trans ((and_iff_right hhead).trans hall)
    | false =>
      rw [htells] at htype
      have hnone : env.definitionFrom? members visible item = none := htype
      have hroot := himplicit (implicit_of_not_tellsDefinition htells)
      obtain ⟨⟨hsome, _⟩, hafter⟩ := ih hrestUnhidden (hgrown.declare?_hidden hdeclared hroot)
      simp only [TypeEnv.definitionsFrom, TypeEnv.tellsAll, hnone, htells, Bool.false_and]
      refine ⟨⟨.cons_right hsome, fun hlists => ?_, fun h => absurd h Bool.false_ne_true⟩, hafter⟩
      have hlength : ((env.definitionsFrom members visible rest).map Prod.fst).length ≤
          (rest.map Definition.name).length :=
        (TypeEnv.names_definitionsFrom visible rest).length_le
      have hequal := List.Forall₂.length_eq hlists
      simp only [List.length_map, List.length_cons] at hlength hequal
      omega

theorem mirrors_nil : Mirrors env [] ({} : Scopes).enter := ⟨nofun, fun _ _ _ => rfl⟩

theorem listed_blockFrom {members : Ty → Typed}
    (hmembers : ∀ object, (members object).Within (env.members object)) {final : Findings}
    {decl : FunctionDecl} (h : AllIntroduced env final (.function decl))
    (hunhidden : Unhidden env (Declaration.function decl).definitions) (role : BlockRole) :
    final.ListsAllIf (env.blockFrom members decl role) (roleDefinitions decl role)
      (env.tellsBlock members decl role) := by
  obtain ⟨after, hafter⟩ := h
  obtain ⟨middle, hfirst, hsecond⟩ := inTurn_append.1 hafter
  obtain ⟨hlisted, hmirrors⟩ := listed_of_inTurn hmembers hfirst
    (fun item hitem => hunhidden item (List.mem_append_left _ hitem)) mirrors_nil
  cases role with
  | parameters => exact hlisted
  | results =>
    exact (listed_of_inTurn hmembers hsecond
      (fun item hitem => hunhidden item (List.mem_append_right _ hitem)) hmirrors).1

/-- Names of definitions that came into one scope do not repeat. -/
theorem nodup_of_inTurn {final : Findings} {before after : Scopes} {block : List Definition}
    (h : InTurn (Introduced env final) before block after) :
    (block.map Definition.name).Nodup ∧
      ∀ item ∈ block, before.innermost.find? item.name = none := by
  induction h with
  | nil => exact ⟨List.nodup_nil, nofun⟩
  | @cons before middle after item rest hstep hrest ih =>
    obtain ⟨hnodup, hnew⟩ := ih
    obtain ⟨_, hgrows, hdeclared, _⟩ := hstep
    have hgrows' : before.Grows (fun _ => True) middle :=
      (hgrows.mono fun _ _ => trivial).trans (.declare? hdeclared trivial)
    refine ⟨List.nodup_cons.2 ⟨fun hmem => ?_, hnodup⟩, fun other hother => ?_⟩
    · obtain ⟨other, hother, hsame⟩ := List.mem_map.1 hmem
      have hfound := Scopes.find?_innermost_of_declare? hdeclared
      cases hfound.symm.trans (hsame ▸ hnew other hother)
    · rcases List.mem_cons.1 hother with rfl | hother
      · exact hgrows.find?_innermost_eq_none (Scopes.find?_innermost_eq_none hdeclared)
      · exact hgrows'.find?_innermost_eq_none (hnew other hother)

theorem wellNamed_of_allIntroduced {final : Findings} {item : Declaration}
    (h : AllIntroduced env final item) (hunhidden : Unhidden env item.definitions) :
    env.WellNamed item.definitions := by
  obtain ⟨_, hafter⟩ := h
  exact ⟨(nodup_of_inTurn hafter).1, fun definition hmem => (hunhidden definition hmem).1⟩

end Check

def BlockRole.part : BlockRole → GeneratedPart
  | parameters => .parameters
  | results => .results

namespace TypeEnv

variable {env : TypeEnv}

theorem members_function (hnames : env.document.names.Nodup) {decl : FunctionDecl}
    (h : .function decl ∈ env.document.declarations) (role : BlockRole) :
    env.members (.generated decl.name role.part) =
      env.blockFrom (env.membersOutside [.generated decl.name role.part]) decl role := by
  have hobject : .generated decl.name role.part ∈ env.objectTypes := by
    refine List.mem_flatMap.2 ⟨_, h, ?_⟩
    cases role <;> simp [objectTypesOf, BlockRole.part]
  rw [members_eq hobject]
  cases role <;> simp [membersFrom, BlockRole.part, Document.function?_of_nodup hnames h]

theorem members_row (hnames : env.document.names.Nodup) {decl : TableDecl}
    (h : .table decl ∈ env.document.declarations) :
    env.members (.generated decl.name .row) = env.columnTypes decl := by
  have hobject : .generated decl.name .row ∈ env.objectTypes :=
    List.mem_flatMap.2 ⟨_, h, List.mem_singleton_self _⟩
  rw [members_eq hobject]
  simp [membersFrom, Document.table?_of_nodup hnames h]

theorem members_record (hnames : env.document.names.Nodup) {decl : RecordDecl}
    (h : .record decl ∈ env.document.declarations) :
    env.members (.record decl.name) =
      env.definitionsFrom (env.membersOutside [.record decl.name]) [] decl.members := by
  have hobject : .record decl.name ∈ env.objectTypes :=
    List.mem_flatMap.2 ⟨_, h, List.mem_singleton_self _⟩
  rw [members_eq hobject]
  simp [membersFrom, Document.record?_of_nodup hnames h]

end TypeEnv

/-- A document without errors was checked in scopes that are known for each definition. -/
theorem Dialect.Compiles.introduced {dialect : Dialect} {options : CompileOptions}
    {compiled : Compiled} (h : dialect.Compiles options compiled) (hchecks : options.checks = true)
    (herrors : compiled.log.errors = [])
    (hunhidden : ∀ item ∈ compiled.document.declarations,
      Check.Unhidden ⟨compiled.document, dialect.rules⟩ item.definitions) :
    compiled.document.names.Nodup ∧ ∀ item ∈ compiled.document.declarations,
      Check.AllIntroduced ⟨compiled.document, dialect.rules⟩ compiled.findings item := by
  obtain ⟨hnames, hnumbers, _, order, log, hperm, _, hcheck, herrors⟩ :=
    h.exists_check hchecks herrors
  refine ⟨hnames, ?_⟩
  rw [← show _ = compiled.log from congrArg Prod.snd hcheck] at herrors
  rw [← show _ = compiled.findings from congrArg Prod.fst hcheck]
  exact TypeEnv.introduced_check hperm hnumbers herrors hunhidden

/-- In a document that is checked without errors, parameters, results and members of record types
are listed with the types that are recorded for them. A listing is complete exactly if every
definition without a written type has a default value that tells its type; members of a type are
told while the type itself has no members. Definitions that are left out could be taken for root
declarations, so none of them may have the name of one. -/
theorem Dialect.Compiles.listed_iff_tells {dialect : Dialect} {options : CompileOptions}
    {compiled : Compiled} (h : dialect.Compiles options compiled) (hchecks : options.checks = true)
    (herrors : compiled.log.errors = [])
    (hunhidden : ∀ item ∈ compiled.document.declarations,
      Check.Unhidden ⟨compiled.document, dialect.rules⟩ item.definitions) :
    let env : TypeEnv := ⟨compiled.document, dialect.rules⟩
    (∀ decl, .function decl ∈ compiled.document.declarations → ∀ role : BlockRole,
      let object : Ty := .generated decl.name role.part
      compiled.findings.ListsAllIf (env.functionMembers decl role)
          (Check.roleDefinitions decl role) (env.tellsBlock env.members decl role) ∧
        compiled.findings.ListsAllIf (env.members object) (Check.roleDefinitions decl role)
          (env.tellsBlock (env.membersOutside [object]) decl role)) ∧
    ∀ decl, .record decl ∈ compiled.document.declarations →
      compiled.findings.ListsAllIf (env.members (.record decl.name)) decl.members
        (env.tellsAll (env.membersOutside [.record decl.name]) [] decl.members) := by
  intro env
  obtain ⟨hnames, hintroduced⟩ := h.introduced hchecks herrors hunhidden
  have hnamed (item : Declaration) (hitem : item ∈ env.document.declarations) :
      env.WellNamed item.definitions :=
    Check.wellNamed_of_allIntroduced (hintroduced item hitem) (hunhidden item hitem)
  have hwithin (visiting : List Ty) := env.membersOutside_within_members hnamed visiting
  constructor
  · intro decl hdecl role object
    rw [env.members_function hnames hdecl]
    exact ⟨Check.listed_blockFrom (fun _ _ _ h => h) (hintroduced _ hdecl) (hunhidden _ hdecl) role,
      Check.listed_blockFrom (hwithin _) (hintroduced _ hdecl) (hunhidden _ hdecl) role⟩
  · intro decl hdecl
    rw [env.members_record hnames hdecl]
    obtain ⟨after, hafter⟩ := hintroduced _ hdecl
    exact (Check.listed_of_inTurn (hwithin _) hafter (hunhidden _ hdecl) Check.mirrors_nil).1

namespace Dialect

/-- Default values that name earlier definitions, in a record type and in a function. -/
def toldDefaults : List String :=
  ["type Point", "  number X = 1", "  var Y = X", "function Shift", "  parameters", "    Point P",
    "    var Left = P.Y + 1", "  results", "    var Right = (Left)"]

theorem listed_iff_tells_toldDefaults :
    ∃ compiled, ({} : Dialect).compileLines {} "told" toldDefaults = .ok compiled ∧
      ({} : CompileOptions).checks = true ∧ compiled.log.errors = [] ∧
      (∀ item ∈ compiled.document.declarations,
        Check.Unhidden ⟨compiled.document, ({} : Dialect).rules⟩ item.definitions) ∧
      let env : TypeEnv := ⟨compiled.document, ({} : Dialect).rules⟩
      (∃ decl, .function decl ∈ compiled.document.declarations ∧ ∀ role : BlockRole,
        compiled.findings.ListsAll (env.functionMembers decl role)
            (Check.roleDefinitions decl role) ∧
          compiled.findings.ListsAll (env.members (.generated decl.name role.part))
            (Check.roleDefinitions decl role)) ∧
      ∃ decl, .record decl ∈ compiled.document.declarations ∧
        compiled.findings.ListsAll (env.members (.record decl.name)) decl.members := by
  have hok : (({} : Dialect).compileLines {} "told" toldDefaults).toOption.any (fun compiled =>
      let env : TypeEnv := ⟨compiled.document, ({} : Dialect).rules⟩
      compiled.log.errors.isEmpty &&
        (compiled.document.declarations.all fun item => item.definitions.all fun definition =>
          (definition.type != .implicit || (env.rootType? definition.name).isNone) &&
            definition.default.all fun value => value.declaredNames.all fun name =>
              (env.rootType? name).isNone) &&
        ((compiled.document.function? "Shift").any fun decl =>
          [BlockRole.parameters, .results].all fun role =>
            env.tellsBlock env.members decl role &&
              env.tellsBlock (env.membersOutside [.generated decl.name role.part]) decl role) &&
        (compiled.document.record? "Point").any fun decl =>
          env.tellsAll (env.membersOutside [.record decl.name]) [] decl.members) = true := by
    decide +kernel
  obtain ⟨compiled, hcompile, hall⟩ := (Option.any_eq_true _ _).1 hok
  have hcompile := compileLines_eq_ok hcompile
  simp only [Bool.and_eq_true, List.isEmpty_iff, List.all_eq_true, Option.any_eq_true] at hall
  obtain ⟨⟨⟨herrors, hunhidden⟩, shift, hshift, htells⟩, point, hpoint, htells'⟩ := hall
  have hunhidden : ∀ item ∈ compiled.document.declarations,
      Check.Unhidden ⟨compiled.document, ({} : Dialect).rules⟩ item.definitions := by
    intro item hitem definition hdefinition
    have hnames := hunhidden item hitem definition hdefinition
    simpa [Option.all_eq_true, imp_iff_not_or] using hnames
  obtain ⟨hfunctions, hrecords⟩ :=
    Compiles.listed_iff_tells (.lines _ _ hcompile) rfl herrors hunhidden
  obtain ⟨hmem, _⟩ := Document.mem_declarations_of_function? hshift
  obtain ⟨hmem', _⟩ := Document.mem_declarations_of_record? hpoint
  refine ⟨compiled, hcompile, rfl, herrors, hunhidden, ⟨shift, hmem, fun role => ?_⟩, point, hmem',
    ?_⟩
  · obtain ⟨hlisted, hmembers⟩ := hfunctions shift hmem role
    have htells := htells role (by cases role <;> simp)
    exact ⟨hlisted.2.2 htells.1, hmembers.2.2 htells.2⟩
  · exact (hrecords point hmem').2.2 htells'

/-- A default value that names an enumeration. -/
def enumDefault : List String := ["enum E", "  A", "function F", "  parameters", "    var X = E"]

/-- The type of the parameter is recorded, and neither listing has the parameter. -/
theorem unlisted_enumDefault :
    ∃ compiled decl, ({} : Dialect).compileLines {} "enum" enumDefault = .ok compiled ∧
      compiled.log.errors = [] ∧ .function decl ∈ compiled.document.declarations ∧
      decl.parameterDefinitions.map (fun item =>
        (item.name, compiled.findings.definitions.find? item.id)) =
          [("X", some (.enumeration "E"))] ∧
      let env : TypeEnv := ⟨compiled.document, ({} : Dialect).rules⟩
      env.functionMembers decl .parameters = [] ∧
        env.members (.generated decl.name .parameters) = [] := by
  have hok : (({} : Dialect).compileLines {} "enum" enumDefault).toOption.any (fun compiled =>
      compiled.log.errors.isEmpty && (compiled.document.function? "F").any fun decl =>
        decide (decl.parameterDefinitions.map (fun item =>
          (item.name, compiled.findings.definitions.find? item.id)) =
            [("X", some (.enumeration "E"))]) &&
        let env : TypeEnv := ⟨compiled.document, ({} : Dialect).rules⟩
        (env.functionMembers decl .parameters).isEmpty &&
          (env.members (.generated decl.name .parameters)).isEmpty) = true := by decide +kernel
  obtain ⟨compiled, hcompile, hall⟩ := (Option.any_eq_true _ _).1 hok
  have hcompile := compileLines_eq_ok hcompile
  simp only [Bool.and_eq_true, List.isEmpty_iff, Option.any_eq_true, decide_eq_true_eq] at hall
  obtain ⟨herrors, decl, hdecl, hlisted⟩ := hall
  obtain ⟨hmem, _⟩ := Document.mem_declarations_of_function? hdecl
  exact ⟨compiled, decl, hcompile, herrors, hmem, hlisted⟩

end Dialect

end DecisionLang
