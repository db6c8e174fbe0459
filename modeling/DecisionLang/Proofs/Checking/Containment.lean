import DecisionLang.Proofs.Checking.Members
import DecisionLang.Proofs.Typing.Agreement
import Mathlib.Tactic.TFAE

/-!
# What object types are made of

An object type contains the types of its members or columns (`TypeEnv.Contains`). These belong to
declarations that the declaration of the type refers to, or to that declaration itself, and without
errors declarations come in an order. So whatever contains itself does so within one declaration.
Main statement: `Dialect.Compiles.containment_tfae`. That a type contains itself within one
declaration is refused only where a record type is written as the type of its member, and open
elsewhere (`Dialect.not_wellFounded_selfContaining`).
-/

namespace DecisionLang

/-! ### Ranks of declarations -/

namespace Document

variable {document : Document} {rank : String → Nat} {bound : Nat} {name : String}

/-- Declarations that the names in a declaration mean have smaller ranks than it, and no two
declarations have the same. -/
structure IsRank (document : Document) (rank : String → Nat) : Prop where
  lt : ∀ item ∈ document.declarations, ∀ other ∈ document.declarations, other.name ≠ item.name →
    other.name ∈ item.referredNames → rank other.name < rank item.name
  injective : ∀ item ∈ document.declarations, ∀ other ∈ document.declarations,
    rank other.name = rank item.name → other.name = item.name

/-- If a name is declared, it has at most a certain rank. -/
def UpTo (document : Document) (rank : String → Nat) (bound : Nat) (name : String) : Prop :=
  ∀ item ∈ document.declarations, item.name = name → rank name ≤ bound

theorem isRank_of_order (hnames : document.names.Nodup) {order : List Nat}
    (hperm : order.Perm (List.range document.declarations.length))
    (hrefers : ∀ index other declaration dependency,
      document.declarations[index]? = some declaration →
      document.declarations[other]? = some dependency → other ≠ index →
      dependency.name ∈ declaration.referredNames → order.idxOf other < order.idxOf index) :
    document.IsRank fun name => order.idxOf (document.names.idxOf name) := by
  have hindex (item : Declaration) (hitem : item ∈ document.declarations) :
      document.declarations[document.names.idxOf item.name]? = some item := by
    obtain ⟨index, hlt, rfl⟩ := List.getElem_of_mem hitem
    have hnamed : index < document.names.length := by simpa [names] using hlt
    have hname : document.names[index] = (document.declarations[index]).name :=
      List.getElem_map _
    rw [← hname, hnames.idxOf_getElem, List.getElem?_eq_getElem hlt]
  refine ⟨fun item hitem other hother hne hname => ?_, fun item hitem other hother hrank => ?_⟩
  · refine hrefers _ _ item other (hindex item hitem) (hindex other hother) (fun heq => hne ?_) hname
    exact congrArg Declaration.name
      (Option.some.inj ((hindex other hother).symm.trans (heq ▸ hindex item hitem)))
  · obtain ⟨hlt, _⟩ := List.getElem?_eq_some_iff.1 (hindex other hother)
    have hmem := hperm.mem_iff.2 (List.mem_range.2 hlt)
    have heq := (List.idxOf_inj hmem).1 hrank
    exact congrArg Declaration.name
      (Option.some.inj ((hindex other hother).symm.trans (heq ▸ hindex item hitem)))

theorem IsRank.upTo_of_refers (h : document.IsRank rank) {item : Declaration}
    (hitem : item ∈ document.declarations) (hbound : rank item.name ≤ bound)
    (hname : name ∈ item.referredNames) : document.UpTo rank bound name := by
  rintro other hother rfl
  by_cases heq : other.name = item.name
  · rwa [heq]
  · exact (h.lt item hitem other hother heq hname).le.trans hbound

end Document

namespace TypeEnv

variable {env : TypeEnv} {rank : String → Nat} {bound : Nat}

theorem agrees_upTo (h : env.document.IsRank rank) (bound : Nat) :
    env.Agrees env (env.document.UpTo rank bound) := by
  refine ⟨rfl, fun _ _ => rfl, fun name hname item hitem => ?_⟩
  obtain ⟨hmem, rfl⟩ := Document.mem_called.1 hitem
  exact Declaration.refersAmong_iff.2 fun other hother =>
    h.upTo_of_refers hmem (hname item hmem rfl) hother

end TypeEnv

/-! ### Recorded types -/

namespace Check

variable {env : TypeEnv} {named : String → Prop} {final : Findings} {before after : Scopes}

/-- The type that is recorded for a definition, and the variables that it brings into scope, have
types that belong to declarations of certain names. -/
theorem Enters.among (hagrees : env.Agrees env named) {item : Definition}
    (hitem : (Node.definition item).RefersAmong named) (h : Enters env final before item after)
    (hbefore : before.Among named) :
    (∀ type ∈ final.definitions.find? item.id, type.Among named) ∧ after.Among named := by
  let again : Rerun := ⟨env, env, named, hagrees, {}⟩
  have hvalue (value : Expr) (hvalue : value ∈ item.default) :
      again.Repeated (fun _ => True) value :=
    Rerun.repeats_expression (fun node hnode =>
      ⟨hitem.value value hvalue node hnode, fun id _ => Findings.lacks_empty id⟩) fun _ _ => trivial
  obtain @⟨type, middle, _, _, hrecorded, hmiddle, hdeclared, htakes⟩ := h
  have htype : type.Among named := by
    cases htakes with
    | written _ hwritten => exact (hagrees.resolve? hitem.self).among type hwritten
    | untyped _ hdefault hscopes hfound =>
      exact (hvalue _ hdefault).result _ (hscopes ▸ hbefore) type hfound
  have hmiddle : middle.Among named := by
    generalize item.default = default at hmiddle hvalue
    cases hmiddle with
    | none => exact hbefore
    | @some value state hscopes => exact (hvalue value rfl).among (hscopes ▸ hbefore)
  have hnew : middle.Gains (fun new => new.type.Among named) after := .declare? hdeclared htype
  refine ⟨?_, hnew.among hmiddle fun _ hnew => hnew⟩
  rw [hrecorded]
  rintro _ ⟨⟩
  exact htype

theorem among_of_inTurn (hagrees : env.Agrees env named) {block : List Definition}
    (h : InTurn (Enters env final) before block after)
    (hblock : ∀ item ∈ block, (Node.definition item).RefersAmong named)
    (hbefore : before.Among named) :
    ∀ item ∈ block, ∀ type ∈ final.definitions.find? item.id, type.Among named := by
  induction h with
  | nil => exact List.forall_mem_nil _
  | cons hstep _ ih =>
    obtain ⟨hitem, hblock⟩ := List.forall_mem_cons.1 hblock
    obtain ⟨htype, hmiddle⟩ := hstep.among hagrees hitem hbefore
    exact List.forall_mem_cons.2 ⟨htype, ih hblock hmiddle⟩

end Check

/-! ### Containment -/

namespace TypeEnv

/-- An object type has a member or column of a type: a definition with this recorded type, a column
that is written with it, or a member that is listed with it. -/
inductive Contains (env : TypeEnv) (findings : Findings) : Ty → Ty → Prop
  | member {decl : RecordDecl} {item : Definition} {inner : Ty}
      (hdecl : .record decl ∈ env.document.declarations) (hitem : item ∈ decl.members)
      (htype : findings.definitions.find? item.id = some inner) :
      Contains env findings (.record decl.name) inner
  | definition {decl : FunctionDecl} {role : BlockRole} {item : Definition} {inner : Ty}
      (hdecl : .function decl ∈ env.document.declarations)
      (hitem : item ∈ Check.roleDefinitions decl role)
      (htype : findings.definitions.find? item.id = some inner) :
      Contains env findings (.generated decl.name role.part) inner
  | column {decl : TableDecl} {item : Column} {inner : Ty}
      (hdecl : .table decl ∈ env.document.declarations) (hitem : item ∈ decl.columns)
      (htype : env.resolve? item.type = some inner) :
      Contains env findings (.generated decl.name .row) inner
  | listed {outer inner : Ty} {name : String} (hmember : (name, inner) ∈ env.members outer) :
      Contains env findings outer inner

/-- No object type contains itself directly, and no function has parameters and results that contain
each other. -/
structure NotSelfContaining (env : TypeEnv) (findings : Findings) : Prop where
  itself : ∀ object, ¬env.Contains findings object object
  parts : ∀ name,
    ¬(env.Contains findings (.generated name .parameters) (.generated name .results) ∧
      env.Contains findings (.generated name .results) (.generated name .parameters))

variable {env : TypeEnv} {findings : Findings} {rank : String → Nat}

theorem mem_objectTypes_of_members {object : Ty} {entry : String × Ty}
    (h : entry ∈ env.members object) : object ∈ env.objectTypes := by
  by_contra hnone
  rw [members, membersOutside, dif_neg fun hmem => hnone hmem.1] at h
  cases h

theorem among_of_mem_objectTypesOf {named : String → Prop} {item : Declaration} {object : Ty}
    (h : object ∈ objectTypesOf item) : object.Among named ↔ named item.name := by
  cases item <;> simp only [objectTypesOf, List.mem_cons, List.not_mem_nil, or_false] at h
  case function => rcases h with rfl | rfl <;> exact Iff.rfl
  all_goals
    subst h
    exact Iff.rfl

/-- What contains something is declared, and what it contains belongs to declarations of at most the
same rank. -/
theorem Contains.exists_declaration (hrank : env.document.IsRank rank)
    (henter : ∀ item ∈ env.document.declarations, Check.AllEnter env findings item)
    {outer inner : Ty} (h : env.Contains findings outer inner) :
    ∃ item ∈ env.document.declarations, outer ∈ objectTypesOf item ∧
      inner.Among (env.document.UpTo rank (rank item.name)) := by
  have hagrees (item : Declaration) := agrees_upTo hrank (rank item.name)
  have hrefers (item : Declaration) (hitem : item ∈ env.document.declarations) :
      (Node.ofDeclaration item).RefersAmong (env.document.UpTo rank (rank item.name)) :=
    Declaration.refersAmong_iff.2 fun _ hname => hrank.upTo_of_refers hitem le_rfl hname
  have hscopes (named : String → Prop) : ({} : Scopes).enter.Among named := List.forall_mem_nil _
  cases h with
  | @member decl item inner hdecl hitem htype =>
    obtain ⟨_, hafter⟩ := henter _ hdecl
    exact ⟨_, hdecl, List.mem_singleton_self _, Check.among_of_inTurn (hagrees _) hafter
      (hrefers _ hdecl).member (hscopes _) item hitem inner htype⟩
  | @definition decl role item inner hdecl hitem htype =>
    obtain ⟨_, hafter⟩ := henter _ hdecl
    refine ⟨_, hdecl, by cases role <;> simp [objectTypesOf, BlockRole.part], ?_⟩
    refine Check.among_of_inTurn (hagrees _) hafter ?_ (hscopes _) item ?_ inner htype
    · exact List.forall_mem_append.2 ⟨(hrefers _ hdecl).parameter, (hrefers _ hdecl).result⟩
    · cases role with
      | parameters => exact List.mem_append_left _ hitem
      | results => exact List.mem_append_right _ hitem
  | @column decl item inner hdecl hitem htype =>
    refine ⟨_, hdecl, List.mem_singleton_self _, ?_⟩
    exact ((hagrees _).resolve? ((hrefers _ hdecl).column item hitem)).among inner htype
  | @listed _ inner name hmember =>
    obtain ⟨item, hitem, hobject⟩ := List.mem_flatMap.1 (mem_objectTypes_of_members hmember)
    refine ⟨item, hitem, hobject, ?_⟩
    refine ((hagrees item).members ?_).among _ hmember
    exact (among_of_mem_objectTypesOf hobject).2 fun _ _ _ => le_rfl

section WellFounded

variable (hnames : env.document.names.Nodup) (hrank : env.document.IsRank rank)
  (henter : ∀ item ∈ env.document.declarations, Check.AllEnter env findings item)
include hnames hrank henter

/-- What an object type contains is of a declaration with a smaller rank, or of the same
declaration, or contains nothing. -/
theorem Contains.cases {item : Declaration} (hitem : item ∈ env.document.declarations)
    {outer inner : Ty} (houter : outer ∈ objectTypesOf item)
    (h : env.Contains findings outer inner) :
    (∃ other ∈ env.document.declarations, inner ∈ objectTypesOf other ∧
      rank other.name < rank item.name) ∨ inner ∈ objectTypesOf item ∨
      ∀ innermost, ¬env.Contains findings inner innermost := by
  obtain ⟨found, hfound, hobject, hamong⟩ := h.exists_declaration hrank henter
  have hname : found.name = item.name := by
    have houter : outer.Among (· = item.name) := (among_of_mem_objectTypesOf houter).2 rfl
    exact (among_of_mem_objectTypesOf hobject).1 houter
  rw [hname] at hamong
  by_cases hdeclared : ∃ innermost, env.Contains findings inner innermost
  · obtain ⟨innermost, hinnermost⟩ := hdeclared
    obtain ⟨other, hother, hinner, -⟩ := hinnermost.exists_declaration hrank henter
    have hle := (among_of_mem_objectTypesOf hinner).1 hamong other hother rfl
    rcases hle.lt_or_eq with hlt | heq
    · exact .inl ⟨other, hother, hinner, hlt⟩
    · have hsame := List.inj_on_of_nodup_map hnames hother hitem
        (hrank.injective item hitem other hother heq)
      exact .inr (.inl (hsame ▸ hinner))
  · exact .inr (.inr fun innermost hinnermost => hdeclared ⟨innermost, hinnermost⟩)

theorem acc_contains {item : Declaration} (hitem : item ∈ env.document.declarations)
    (hlower : ∀ other ∈ env.document.declarations, rank other.name < rank item.name →
      ∀ inner ∈ objectTypesOf other, Acc (fun inner outer => env.Contains findings outer inner) inner)
    (h : env.NotSelfContaining findings) :
    ∀ outer ∈ objectTypesOf item,
      Acc (fun inner outer => env.Contains findings outer inner) outer := by
  let Inside (inner outer : Ty) : Prop := env.Contains findings outer inner
  have hacc {outer : Ty} (houter : outer ∈ objectTypesOf item)
      (hsame : ∀ inner ∈ objectTypesOf item, env.Contains findings outer inner →
        Acc Inside inner) : Acc Inside outer := by
    refine ⟨_, fun inner hinner => ?_⟩
    rcases Contains.cases hnames hrank henter hitem houter hinner with
      ⟨other, hother, hmem, hlt⟩ | hmem | hempty
    · exact hlower other hother hlt inner hmem
    · exact hsame inner hmem hinner
    · exact ⟨_, fun innermost hinnermost => absurd hinnermost (hempty innermost)⟩
  have hpair (first second : Ty)
      (hmem : ∀ inner, inner ∈ objectTypesOf item ↔ inner = first ∨ inner = second)
      (hnot : ¬env.Contains findings first second) :
      ∀ outer ∈ objectTypesOf item, Acc Inside outer := by
    have hfirst : Acc Inside first := by
      refine hacc ((hmem first).2 (.inl rfl)) fun inner hinner hcontains => ?_
      rcases (hmem inner).1 hinner with rfl | rfl
      · exact absurd hcontains (h.itself _)
      · exact absurd hcontains hnot
    have hsecond : Acc Inside second := by
      refine hacc ((hmem second).2 (.inr rfl)) fun inner hinner hcontains => ?_
      rcases (hmem inner).1 hinner with rfl | rfl
      · exact hfirst
      · exact absurd hcontains (h.itself _)
    intro outer houter
    rcases (hmem outer).1 houter with rfl | rfl
    · exact hfirst
    · exact hsecond
  cases item with
  | enumeration | scenario => exact List.forall_mem_nil _
  | record decl =>
    exact hpair (.record decl.name) _ (fun _ => by simp [objectTypesOf]) (h.itself _)
  | table decl =>
    exact hpair (.generated decl.name .row) _ (fun _ => by simp [objectTypesOf]) (h.itself _)
  | function decl =>
    by_cases hparts : env.Contains findings (.generated decl.name .parameters)
        (.generated decl.name .results)
    · exact hpair _ _ (fun _ => by simp [objectTypesOf, or_comm]) fun hback =>
        h.parts decl.name ⟨hparts, hback⟩
    · exact hpair _ _ (fun _ => by simp [objectTypesOf]) hparts

theorem wellFounded_contains (h : env.NotSelfContaining findings) :
    WellFounded fun inner outer => env.Contains findings outer inner := by
  have hdeclared (bound : Nat) : ∀ item ∈ env.document.declarations, rank item.name = bound →
      ∀ outer ∈ objectTypesOf item,
        Acc (fun inner outer => env.Contains findings outer inner) outer := by
    -- Ranks of declarations are what the induction is on: containment never leads to a greater one.
    induction bound using Nat.strongRecOn with
    | ind bound ih =>
      rintro item hitem rfl
      exact acc_contains hnames hrank henter hitem
        (fun other hother hlt => ih _ hlt other hother rfl) h
  refine ⟨fun outer => ⟨_, fun inner hinner => ?_⟩⟩
  by_cases hempty : ∃ innermost, env.Contains findings inner innermost
  · obtain ⟨innermost, hinnermost⟩ := hempty
    obtain ⟨item, hitem, hmem, -⟩ := hinnermost.exists_declaration hrank henter
    exact hdeclared _ item hitem rfl inner hmem
  · exact ⟨_, fun innermost hinnermost => absurd ⟨innermost, hinnermost⟩ hempty⟩

end WellFounded

/-! ### Written members of record types -/

theorem among_of_rootType? {name : String} {type : Ty} (h : env.rootType? name = some type) :
    type.Among (· = name) := by
  unfold rootType? at h
  cases hfind : env.document.find? name with
  | none =>
    rw [hfind] at h
    cases h
  | some item =>
    have hname : item.name = name := by simpa using List.find?_some hfind
    rw [hfind] at h
    cases item <;> cases h <;> exact hname

theorem exists_table_of_step {type next : WrittenType} (h : env.step type = .column next) :
    ∃ decl, .table decl ∈ env.document.declarations ∧ type.rootName? = some decl.name ∧
      ∃ column ∈ decl.columns, column.type = next := by
  unfold step at h
  split at h
  all_goals try cases h
  next owner member =>
    unfold memberStep at h
    split at h
    · cases h
    · next name hroot =>
      split at h
      · cases h
      next decl hdecl =>
        obtain ⟨hmem, hname⟩ := Document.mem_declarations_of_table? hdecl
        split at h
        · cases h
        split at h
        · cases h
        cases hcolumn : decl.column? member with
        | none => simp [hcolumn] at h
        | some column =>
          simp only [hcolumn, Option.elim_some, Resolution.column.injEq] at h
          refine ⟨decl, hmem, ?_, column, List.mem_of_find?_eq_some hcolumn, h⟩
          have howner : name = owner := among_of_rootType? hroot
          rw [hname, howner]
          rfl
    · cases h

theorem eq_named_of_step {type : WrittenType} {name : String}
    (h : env.step type = .settled (some (.record name))) : type = .named (NamePath.ofName name) := by
  unfold step at h
  split at h
  · cases h
  · cases h
  · next written =>
    have h : env.namedType? written = some (.record name) := Resolution.settled.inj h
    unfold namedType? at h
    split at h
    · cases h
    · have hname : name = written := among_of_rootType? (Option.mem_filter_iff.1 h).1
      rw [hname]
      rfl
  · next owner member =>
    unfold memberStep at h
    split at h
    · have h := Resolution.settled.inj h
      obtain ⟨_, _, h⟩ := Option.map_eq_some_iff.1 h
      cases h
    · split at h
      · cases h
      split at h
      · cases h
      split at h
      · cases h
      next decl _ _ _ => cases hcolumn : decl.column? member <;> simp [hcolumn] at h
    · cases h
  · cases h

/-- A member of a record type that is written with another type is not of the record type itself:
through a column this would be a cycle of declarations. -/
theorem resolve?_ne_record (hnames : env.document.names.Nodup) (hrank : env.document.IsRank rank)
    {decl : RecordDecl} (hdecl : .record decl ∈ env.document.declarations) {item : Definition}
    (hitem : item ∈ decl.members) (hother : item.type ≠ .named (NamePath.ofName decl.name)) :
    env.resolve? item.type ≠ some (.record decl.name) := by
  intro htype
  unfold resolve? at htype
  rw [Option.join_eq_some_iff, resolveWithin] at htype
  cases hstep : env.step item.type with
  | settled found =>
    rw [hstep] at htype
    cases htype
    exact hother (eq_named_of_step hstep)
  | column next =>
    rw [hstep] at htype
    obtain ⟨found, hfound, hfilter⟩ := Option.map_eq_some_iff.1 htype
    obtain ⟨table, htable, hroot, column, hcolumn, rfl⟩ := exists_table_of_step hstep
    have hname : table.name ∈ (Declaration.record decl).referredNames := by
      have hdeclared : (Node.ofDeclaration (.record decl)).RefersAmong
          (· ∈ (Declaration.record decl).referredNames) := Declaration.refersAmong_iff.2 fun _ h => h
      exact (hdeclared.member item hitem).self _ hroot
    have hne : table.name ≠ decl.name := fun heq =>
      Declaration.noConfusion (List.inj_on_of_nodup_map hnames htable hdecl heq)
    have hlt : rank table.name < rank decl.name := hrank.lt _ hdecl _ htable hne hname
    have hcolumns : column.type.Among (env.document.UpTo rank (rank table.name)) := by
      have hdeclared : (Node.ofDeclaration (.table table)).RefersAmong
          (env.document.UpTo rank (rank table.name)) :=
        Declaration.refersAmong_iff.2 fun _ => hrank.upTo_of_refers htable le_rfl
      exact hdeclared.column column hcolumn
    obtain ⟨_, hamong⟩ := (agrees_upTo hrank _).resolveWithin env.columnCount hcolumns
    have hle := hamong found hfound _ (Option.mem_filter_iff.1 hfilter).1 _ hdecl rfl
    omega

end TypeEnv

namespace Check

variable {env : TypeEnv}

theorem sound_recordMember_other (decl : RecordDecl) (member : Definition) :
    Sound (recordMember env decl member) (Node.definition member).keys
      fun _ _ => isSelfContaining decl member = false := by
  unfold recordMember
  split
  · exact (sound_report _ _).absurd.mono List.nil_subperm fun _ _ h => h
  · next hother =>
    exact (sound_definition .record member).weaken fun _ _ _ => Bool.eq_false_iff.2 hother

theorem sound_root_other (item : Declaration) :
    Sound (root env item) (Node.ofDeclaration item).keys fun _ _ =>
      ∀ decl, item = .record decl → ∀ member ∈ decl.members,
        isSelfContaining decl member = false := by
  cases item with
  | record decl =>
    have hmembers : Sound (record env decl) (Node.record decl).keys fun _ _ =>
        ∀ member ∈ decl.members, isSelfContaining decl member = false := by
      rw [Node.collect_record Node.keys_of_isTyped]
      exact sound_inScope (sound_forM fun member _ => sound_recordMember_other decl member)
    refine hmembers.weaken fun _ _ h => ?_
    rintro _ ⟨⟩
    exact h
  | _ => exact (sound_root _).weaken fun _ _ _ => nofun

end Check

/-- In a document that is checked without errors, containment has no cycle, and ends everywhere,
exactly if no object type contains itself directly and no function has parameters and results that
contain each other: longer cycles would be cycles of declarations. A record type contains itself
directly only through a member without a written type. -/
theorem Dialect.Compiles.containment_tfae {dialect : Dialect} {options : CompileOptions}
    {compiled : Compiled} (h : dialect.Compiles options compiled) (hchecks : options.checks = true)
    (herrors : compiled.log.errors = []) :
    let env : TypeEnv := ⟨compiled.document, dialect.rules⟩
    let findings := compiled.findings
    [∀ object, ¬Relation.TransGen (env.Contains findings) object object,
      WellFounded fun inner outer => env.Contains findings outer inner,
      env.NotSelfContaining findings].TFAE ∧
    ∀ decl, .record decl ∈ compiled.document.declarations → ∀ item ∈ decl.members,
      findings.definitions.find? item.id = some (.record decl.name) → item.type = .implicit := by
  intro env findings
  obtain ⟨hnames, hnumbers, _, order, log, hperm, hrefers, hcheck, herrors⟩ :=
    h.exists_check hchecks herrors
  have hrank : env.document.IsRank _ := Document.isRank_of_order hnames hperm hrefers
  have hfindings : (env.check order log).1 = findings := congrArg Prod.fst hcheck
  rw [← show (env.check order log).2 = compiled.log from congrArg Prod.snd hcheck] at herrors
  have henter := env.enter_check hperm hnumbers herrors
  rw [hfindings] at henter
  constructor
  · tfae_have 3 → 2 := TypeEnv.wellFounded_contains hnames hrank henter
    tfae_have 2 → 1 := by
      intro hwell object hcycle
      have hback := Relation.transGen_swap.1 hcycle
      exact hwell.transGen.asymmetric _ _ hback hback
    tfae_have 1 → 3 := fun hacyclic =>
      ⟨fun object hitself => hacyclic object (.single hitself),
        fun name hparts => hacyclic _ (.tail (.single hparts.1) hparts.2)⟩
    tfae_finish
  · intro decl hdecl item hitem htype
    have hother : item.type ≠ .named (NamePath.ofName decl.name) := by
      have hmembers := env.post_check Check.sound_root_other hperm hnumbers herrors
      simpa [Check.isSelfContaining] using hmembers _ hdecl decl rfl item hitem
    obtain ⟨_, hafter⟩ := henter _ hdecl
    obtain ⟨_, _, hrecorded, _, _, htakes⟩ := hafter.exists_step hitem
    obtain rfl := Option.some.inj (hrecorded.symm.trans htype)
    cases htakes with
    | written _ hwritten =>
      exact absurd hwritten (env.resolve?_ne_record hnames hrank hdecl hitem hother)
    | untyped himplicit => exact himplicit

namespace Dialect

/-- A function with a parameter of a record type, which does not contain itself. -/
theorem containment_tfae_toldDefaults :
    ∃ compiled, ({} : Dialect).compileLines {} "told" toldDefaults = .ok compiled ∧
      ({} : CompileOptions).checks = true ∧ compiled.log.errors = [] ∧
      let env : TypeEnv := ⟨compiled.document, ({} : Dialect).rules⟩
      let findings := compiled.findings
      env.Contains findings (.generated "Shift" .parameters) (.record "Point") ∧
      [∀ object, ¬Relation.TransGen (env.Contains findings) object object,
        WellFounded fun inner outer => env.Contains findings outer inner,
        env.NotSelfContaining findings].TFAE ∧
      ∀ decl, .record decl ∈ compiled.document.declarations → ∀ item ∈ decl.members,
        findings.definitions.find? item.id = some (.record decl.name) → item.type = .implicit := by
  have hok : (({} : Dialect).compileLines {} "told" toldDefaults).toOption.any (fun compiled =>
      let env : TypeEnv := ⟨compiled.document, ({} : Dialect).rules⟩
      compiled.log.errors.isEmpty &&
        (env.members (.generated "Shift" .parameters)).contains ("P", .record "Point")) = true := by
    decide +kernel
  obtain ⟨compiled, hcompile, hall⟩ := (Option.any_eq_true _ _).1 hok
  have hcompile := compileLines_eq_ok hcompile
  simp only [Bool.and_eq_true, List.isEmpty_iff, List.contains_iff_mem] at hall
  obtain ⟨herrors, hmember⟩ := hall
  exact ⟨compiled, hcompile, rfl, herrors, .listed hmember,
    Compiles.containment_tfae (.lines _ _ hcompile) rfl herrors⟩

/-- A record type with a member that is a new record of the type. -/
def selfContaining : List String := ["type Node", "  var Next = new(Node)"]

/-- The record type contains itself, and no error says so. -/
theorem not_wellFounded_selfContaining :
    ∃ compiled, ({} : Dialect).compileLines {} "self" selfContaining = .ok compiled ∧
      ({} : CompileOptions).checks = true ∧ compiled.log.errors = [] ∧
      let env : TypeEnv := ⟨compiled.document, ({} : Dialect).rules⟩
      env.Contains compiled.findings (.record "Node") (.record "Node") ∧
        ¬WellFounded fun inner outer => env.Contains compiled.findings outer inner := by
  have hok : (({} : Dialect).compileLines {} "self" selfContaining).toOption.any (fun compiled =>
      compiled.log.errors.isEmpty && (compiled.document.record? "Node").any fun decl =>
        decl.members.any fun item =>
          compiled.findings.definitions.find? item.id == some (.record "Node")) = true := by
    decide +kernel
  obtain ⟨compiled, hcompile, hall⟩ := (Option.any_eq_true _ _).1 hok
  have hcompile := compileLines_eq_ok hcompile
  simp only [Bool.and_eq_true, List.isEmpty_iff, Option.any_eq_true, List.any_eq_true,
    beq_iff_eq] at hall
  obtain ⟨herrors, decl, hdecl, item, hitem, htype⟩ := hall
  obtain ⟨hmem, hname⟩ := Document.mem_declarations_of_record? hdecl
  have hitself : TypeEnv.Contains ⟨compiled.document, ({} : Dialect).rules⟩ compiled.findings
      (.record "Node") (.record "Node") := hname ▸ .member hmem hitem (hname ▸ htype)
  exact ⟨compiled, hcompile, rfl, herrors, hitself, fun hwell =>
    hwell.asymmetric _ _ hitself hitself⟩

end Dialect

end DecisionLang
