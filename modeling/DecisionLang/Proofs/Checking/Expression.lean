import DecisionLang.Proofs.Checking.Calls

/-!
# Every expression is checked soundly

The rules are put together by induction on the size of an expression. Main statement:
`Check.checked_expression`.
-/

namespace DecisionLang.Check

variable {env : TypeEnv}

/-! ### Parts of an expression -/

theorem childPart?_eq (whole : Expr) (item? : Option Expr)
    (h : ∀ item ∈ item?, item ∈ whole.children) :
    childPart? (fun inner _ => expression env inner) item? h = item?.map (partOf env) := by
  cases item? <;> rfl

theorem childParts_eq (whole : Expr) (items : List Expr) (h : items ⊆ whole.children) :
    childParts (fun inner _ => expression env inner) items h = items.map (partOf env) := by
  have hmap : items.attach.map (fun item => partOf env item.1) = items.map (partOf env) :=
    List.attach_map_val
  exact hmap

theorem casePart?_eq {whole branch : Expr} (h : branch ∈ whole.children) :
    casePart? (fun inner _ => expression env inner) branch h = caseOf env branch := by
  cases branch with
  | case mark value body => cases value <;> rfl
  | _ => rfl

theorem caseParts_eq (whole : Expr) (cases : List Expr) (h : cases ⊆ whole.children) :
    caseParts (fun inner _ => expression env inner) cases h = cases.filterMap (caseOf env) := by
  calc caseParts (fun inner _ => expression env inner) cases h
      = cases.attach.filterMap (caseOf env ∘ Subtype.val) :=
        List.filterMap_congr fun branch _ => casePart?_eq (h branch.2)
    _ = (cases.attach.map Subtype.val).filterMap (caseOf env) := List.filterMap_map.symm
    _ = cases.filterMap (caseOf env) := by rw [List.attach_map_subtype_val]

/-! ### Expressions -/

/-- What deriving the type of an expression establishes. -/
def Derived (env : TypeEnv) (whole : Expr) (final : Findings) (type : Ty) : Prop :=
  (whole.Regular → whole.HasType env final type) ∧
    ∀ part ∈ whole.checkedParts, part.AllTyped env final

def derivedKeys (whole : Expr) : List FindingKey :=
  [(.variable, whole.id), (.definition, whole.id)] ++ whole.checkedParts.flatMap Expr.keys

/-- A rule that records under the keys of the parts alone. -/
theorem Sound.derived {whole : Expr} {action : Check (Option Ty)} {keys : List FindingKey}
    {P : Findings → Ty → Prop} (h : Sound action keys (Yields env P))
    (hkeys : keys = whole.checkedParts.flatMap Expr.keys)
    (hpost : ∀ final type, P final type → Derived env whole final type) :
    Sound action (derivedKeys whole) (Yields env (Derived env whole)) := by
  subst hkeys
  apply h.mono (List.sublist_append_right _ _).subperm
  intro final type? hyields hcolumns
  obtain ⟨type, htype, hpost'⟩ := hyields hcolumns
  exact ⟨type, htype, hpost final type hpost'⟩

/-- A name or path records the variable that it stands for. -/
theorem derived_pathType? {whole : Expr} (path : NamePath) (hparts : whole.checkedParts = [])
    (hrule : ∀ final type, final.Names env whole.id path type → whole.HasType env final type) :
    Sound (pathType? env whole.mark path) (derivedKeys whole) (Yields env (Derived env whole)) := by
  refine (sound_pathType? env whole.mark path).mono (List.Sublist.subperm ?_) ?_
  · simp [derivedKeys, Expr.id]
  · intro final type? hyields hcolumns
    obtain ⟨type, htype, hnames⟩ := hyields hcolumns
    refine ⟨type, htype, fun _ => hrule final type hnames, ?_⟩
    rw [hparts]
    exact nofun

theorem derived_declaration {default : Option Expr} (h : ∀ value ∈ default, Checked env value)
    (mark : Mark) (type : WrittenType) (name : String) :
    Sound (do
        declaration env ⟨mark.id, name, type, mark.reference⟩ .code (default.map (partOf env))
        return some .void) (derivedKeys (.declare mark type name default))
      (Yields env (Derived env (.declare mark type name default))) := by
  have hkeys : (default.toList.flatMap Expr.keys ++ [(FindingKind.definition, mark.id)]).Subperm
      (derivedKeys (.declare mark type name default)) := by
    refine (List.perm_append_singleton _ _).subperm.trans (List.Sublist.subperm ?_)
    exact .cons _ (List.Sublist.refl _)
  refine Sound.mono ((sound_declaration h _ .code).bindRest fun _ => .pure ?_) hkeys
    fun _ _ h => h
  intro final hdeclared
  apply yields_some.2
  intro hcolumns
  obtain ⟨hdeclares, hall⟩ := hdeclared hcolumns
  exact ⟨fun _ => .declare hdeclares, fun part hpart => hall part (Option.mem_toList.1 hpart)⟩

theorem sound_statement {action : Check Unit} {keys : List FindingKey} {P : Findings → Prop}
    (h : Sound action keys fun final _ => env.ColumnsResolve → P final) :
    Sound (do action; return some .void) keys
      (Yields env fun final type => type = .void ∧ P final) :=
  h.bindRest fun _ => .pure fun _ hpost => yields_some.2 fun hcolumns => ⟨rfl, hpost hcolumns⟩

theorem sound_before {action : Check Unit} {rest : Check (Option Ty)}
    {keys keys' : List FindingKey} {P : Findings → Prop} {Q : Findings → Ty → Prop}
    (h : Sound action keys fun final _ => env.ColumnsResolve → P final)
    (hrest : Sound rest keys' (Yields env Q)) :
    Sound (do action; rest) (keys ++ keys') (Yields env fun final type => P final ∧ Q final type) := by
  refine h.bind fun _ => hrest.weaken fun final type? hyields hpost hcolumns => ?_
  obtain ⟨type, htype, hresult⟩ := hyields hcolumns
  exact ⟨type, htype, hpost hcolumns, hresult⟩

theorem sound_derive {whole : Expr} (h : ∀ part ∈ whole.checkedParts, Checked env part) :
    Sound (derive env whole fun inner _ => expression env inner) (derivedKeys whole)
      (Yields env (Derived env whole)) := by
  cases whole with
  | literal mark value =>
    exact Sound.derived (.pure fun _ => yields_some.2 fun _ => .literal) rfl
      fun _ _ htype => ⟨fun _ => htype, List.forall_mem_nil _⟩
  | name mark word => exact derived_pathType? _ rfl fun _ _ hnames => .name hnames
  | path mark names => exact derived_pathType? _ rfl fun _ _ hnames => .path hnames
  | binary mark left operator right =>
    obtain ⟨hleft, hright⟩ := List.forall_mem_cons.1 h
    refine (sound_binary hleft (hright right List.mem_cons_self) mark operator).derived ?_ ?_
    · simp [Expr.checkedParts, Expr.children]
    · rintro final type ⟨htype, hall, hall'⟩
      exact ⟨fun _ => htype, List.forall_mem_cons.2 ⟨hall, List.forall_mem_singleton.2 hall'⟩⟩
  | assign mark target value =>
    obtain ⟨htarget, hvalue⟩ := List.forall_mem_cons.1 h
    refine (sound_assignment htarget (hvalue value List.mem_cons_self) mark).derived ?_ ?_
    · simp [Expr.checkedParts, Expr.children]
    · rintro final type ⟨htype, hall, hall'⟩
      exact ⟨fun _ => htype, List.forall_mem_cons.2 ⟨hall, List.forall_mem_singleton.2 hall'⟩⟩
  | declare mark type name default =>
    have hderive := derived_declaration
      (fun value hvalue => h value (Option.mem_toList.2 hvalue)) mark type name
    rw [← childPart?_eq (.declare mark type name default) default fun _ => Option.mem_toList.2]
      at hderive
    exact hderive
  | group mark inner =>
    refine Sound.derived (h inner List.mem_cons_self) ?_ ?_
    · simp [Expr.checkedParts, Expr.children]
    · rintro final type ⟨htype, hall⟩
      exact ⟨fun _ => .group htype, List.forall_mem_singleton.2 hall⟩
  | indexed mark table index =>
    refine (sound_indexed (h index List.mem_cons_self) mark table).derived ?_ ?_
    · simp [Expr.checkedParts, Expr.children]
    · rintro final type ⟨htype, hall⟩
      exact ⟨fun _ => htype, List.forall_mem_singleton.2 hall⟩
  | make mark making type typeReference =>
    exact (sound_make mark making type typeReference).derived rfl fun _ _ htype =>
      ⟨fun _ => htype, List.forall_mem_nil _⟩
  | extract mark object =>
    refine (sound_extract (h object List.mem_cons_self) mark).derived ?_ ?_
    · simp [Expr.checkedParts, Expr.children]
    · rintro final type ⟨htype, hall⟩
      exact ⟨fun _ => htype, List.forall_mem_singleton.2 hall⟩
  | lookUp mark function table tableReference discriminator value discriminatorColumn searchColumn
      resultColumn =>
    obtain ⟨hdiscriminator, hvalue⟩ := List.forall_mem_append.1 h
    have hlookUp := sound_lookUp
      (fun item hitem => hdiscriminator item (Option.mem_toList.2 hitem))
      (hvalue value List.mem_cons_self) mark function table tableReference discriminatorColumn
      searchColumn resultColumn
    rw [← childPart?_eq (.lookUp mark function table tableReference discriminator value
      discriminatorColumn searchColumn resultColumn) discriminator fun _ hitem =>
        List.mem_append_left [value] (Option.mem_toList.2 hitem)] at hlookUp
    refine hlookUp.derived ?_ ?_
    · simp [Expr.checkedParts, Expr.children]
    · rintro final type ⟨htype, hall, hall'⟩
      refine ⟨htype, List.forall_mem_append.2 ⟨?_, List.forall_mem_singleton.2 hall'⟩⟩
      exact fun item hitem => hall item (Option.mem_toList.1 hitem)
  | call mark function arguments =>
    have harguments : ∀ item ∈ arguments, Checked env item := h
    have hcall := sound_call harguments mark function
    rw [← childParts_eq (.call mark function arguments) arguments fun _ hitem => hitem] at hcall
    exact hcall.derived rfl fun _ _ hcall => ⟨fun _ => hcall.1, hcall.2⟩
  | ifThen mark condition lines alternatives =>
    obtain ⟨hcondition, hrest⟩ := List.forall_mem_cons.1 h
    obtain ⟨hlines, halternatives⟩ := List.forall_mem_append.1 hrest
    have hbody := sound_body hlines
    have hall := sound_statement (sound_checkAll halternatives)
    rw [← childParts_eq (.ifThen mark condition lines alternatives) lines fun _ hline =>
      .tail _ (List.mem_append_left alternatives hline)] at hbody
    rw [← childParts_eq (.ifThen mark condition lines alternatives) alternatives fun _ hline =>
      .tail _ (List.mem_append_right lines hline)] at hall
    have hwhole := sound_before (sound_condition hcondition .ifBranch) (sound_before hbody hall)
    refine hwhole.derived ?_ ?_
    · simp [Expr.checkedParts, Expr.children]
    · rintro final _ ⟨⟨htype, hfound⟩, hlines, rfl, halternatives⟩
      refine ⟨fun _ => .ifThen htype, List.forall_mem_cons.2 ⟨hfound, ?_⟩⟩
      exact List.forall_mem_append.2 ⟨hlines, halternatives⟩
  | elseIf mark condition lines =>
    obtain ⟨hcondition, hlines⟩ := List.forall_mem_cons.1 h
    have hbody := sound_statement (sound_body hlines)
    rw [← childParts_eq (.elseIf mark condition lines) lines fun _ => .tail _] at hbody
    refine (sound_before (sound_condition hcondition .elseIfBranch) hbody).derived ?_ ?_
    · simp [Expr.checkedParts, Expr.children]
    · rintro final _ ⟨⟨htype, hfound⟩, rfl, hlines⟩
      exact ⟨fun _ => .elseIf htype, List.forall_mem_cons.2 ⟨hfound, hlines⟩⟩
  | otherwise mark lines =>
    have hlines : ∀ line ∈ lines, Checked env line := h
    have hbody := sound_statement (sound_body hlines)
    rw [← childParts_eq (.otherwise mark lines) lines fun _ hline => hline] at hbody
    apply hbody.derived rfl
    rintro final _ ⟨rfl, hall⟩
    exact ⟨fun _ => .otherwise, hall⟩
  | switch mark subject cases =>
    obtain ⟨hsubject, hcases⟩ := List.forall_mem_cons.1 h
    have hswitch := sound_switch hsubject (fun branch hbranch part hpart =>
      hcases part (List.mem_flatMap.2 ⟨branch, hbranch, hpart⟩)) mark
    rw [← caseParts_eq (.switch mark subject cases) cases fun _ => .tail _] at hswitch
    refine hswitch.derived ?_ ?_
    · simp [Expr.checkedParts, List.flatMap_assoc]
    · rintro final type ⟨htype, hall, hall'⟩
      refine ⟨fun _ => htype, List.forall_mem_cons.2 ⟨hall, fun part hpart => ?_⟩⟩
      obtain ⟨branch, hbranch, hpart⟩ := List.mem_flatMap.1 hpart
      exact hall' branch hbranch part hpart
  | case mark value lines =>
    have hlines : ∀ line ∈ lines, Checked env line := h
    have hbody := sound_statement (sound_body hlines)
    rw [← childParts_eq (.case mark value lines) lines fun _ =>
      List.mem_append_right value.toList] at hbody
    apply hbody.derived rfl
    rintro final _ ⟨rfl, hall⟩
    exact ⟨fun _ => .case, hall⟩
  | spread mark => exact (sound_refuse _ _ _).absurd.mono List.nil_subperm fun _ _ h => h
  | spreadAssign mark invoked =>
    refine (sound_spreadAssignment (h invoked List.mem_cons_self) mark).derived ?_ ?_
    · simp [Expr.checkedParts, Expr.children]
    · rintro final type ⟨htype, hall⟩
      exact ⟨fun _ => htype, List.forall_mem_singleton.2 hall⟩

/-- Checking an expression records its type after everything inside it was checked. -/
theorem checked_of_derive {whole : Expr}
    (h : Sound (derive env whole fun inner _ => expression env inner) (derivedKeys whole)
      (Yields env (Derived env whole))) : Checked env whole := by
  have hkeys : (derivedKeys whole ++ [(FindingKind.type, whole.id)]).Perm whole.keys := by
    rw [Expr.keys_eq]
    exact List.perm_append_singleton _ _
  unfold Checked
  rw [expression]
  refine Sound.mono (h.bind fun type? => ?_) hkeys.subperm fun _ _ h => h
  cases type? with
  | none =>
    refine Sound.mono (.pure fun _ h => ?_) List.nil_subperm fun _ _ h => h
    exact yields_none.2 (yields_none.1 h)
  | some type =>
    refine (sound_recordType whole.id type).bindRest fun _ => .pure fun final htype hderived => ?_
    refine yields_some.2 fun hcolumns => ⟨htype, ?_⟩
    obtain ⟨hrule, hparts⟩ := yields_some.1 hderived hcolumns
    intro item hitem hregular
    rw [Expr.checked_eq] at hitem
    rcases List.mem_cons.1 hitem with rfl | hitem
    · exact ⟨type, htype, hrule hregular⟩
    · obtain ⟨part, hpart, hitem⟩ := List.mem_flatMap.1 hitem
      exact hparts part hpart item hitem hregular

/-- Whatever an expression is, checking it is sound. -/
theorem checked_expression (env : TypeEnv) (whole : Expr) : Checked env whole := by
  induction hsize : sizeOf whole using Nat.strongRecOn generalizing whole with
  | ind size ih =>
    subst hsize
    refine checked_of_derive (sound_derive fun part hpart => ?_)
    exact ih (sizeOf part) (Expr.sizeOf_lt_of_mem_checkedParts hpart) part rfl

end DecisionLang.Check
