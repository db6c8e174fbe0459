import DecisionLang.Proofs.Checking.Document
import DecisionLang.Proofs.Checking.Keeping.Declaration
import Mathlib.Tactic.TFAE

/-!
# Values of a document

Statements have no value, and no statement is used as one in a document that is checked without
errors, unless its type is taken over: by a variable without a written type, or by a switch, which
wants the values of its cases to be of the same type. Some parts are not checked at all, the values
of stray cases and the blocks of a scenario without a function under test. Main statement:
`Dialect.Compiles.valued_tfae`.
-/

namespace DecisionLang

/-- An expression has a type, and it is not `void`. -/
def Findings.HasValue (findings : Findings) (item : Expr) : Prop :=
  ∃ type, findings.type? item = some type ∧ type ≠ .void

/-! ### Types of statements -/

namespace Expr

variable {env : TypeEnv} {findings : Findings} {item : Expr} {type : Ty}

theorem ne_void_of_names (hvalued : findings.Valued) {id : Nat} {path : NamePath}
    (h : findings.Names env id path type) : type ≠ .void := by
  rcases h with ⟨found, hfound, _, rfl⟩ | ⟨root, hroot, htype⟩
  · exact hvalued.resolved id found hfound
  · exact TypeEnv.follow?_ne_void (TypeEnv.rootType?_ne_void hroot) htype

/-- Exactly statements are of the type `void`, apart from what is in parentheses. -/
theorem HasType.eq_void_iff (h : item.HasType env findings type) (hvalued : findings.Valued)
    (hgroup : ∀ mark inner, item ≠ .group mark inner) :
    type = .void ↔ item.isStatement = true := by
  have hvalue (hvoid : type ≠ .void) (hitem : item.isStatement = false) :
      type = .void ↔ item.isStatement = true := by simp [hvoid, hitem]
  cases h with
  | assign | declare | extract | ifThen | elseIf | otherwise | switch | case | spreadAssign =>
    exact iff_of_true rfl rfl
  | literal | indexed | declaredCall | libraryCall | spread => exact hvalue nofun rfl
  | name hnames | path hnames => exact hvalue (ne_void_of_names hvalued hnames) rfl
  | binary _ _ hrule => exact hvalue (OperatorRules.ne_void_of_result? hrule).2.2 rfl
  | group => exact absurd rfl (hgroup _ _)
  | make _ hobject => exact hvalue (Ty.ne_void_of_isObject hobject) rfl
  | @lookUp _ _ _ _ _ _ _ _ resultColumn _ _ _ _ _ hresult =>
    refine hvalue ?_ rfl
    cases resultColumn with
    | none =>
      obtain rfl := hresult
      nofun
    | some column =>
      obtain ⟨_, _, _, htype⟩ := hresult
      exact TypeEnv.resolve?_ne_void htype

theorem hasValue_iff (hvalued : findings.Valued)
    (htyped : (Node.expression item).Everywhere (Node.Typed env findings)) :
    findings.HasValue item ↔ item.IsValue := by
  have hplain {whole : Expr} (htyped : whole.Typed env findings)
      (hgroup : ∀ mark inner, whole ≠ .group mark inner) :
      findings.HasValue whole ↔ whole.isStatement = false := by
    obtain ⟨type, hfound, htype⟩ := htyped
    have hvoid := htype.eq_void_iff hvalued hgroup
    simp only [Findings.HasValue, hfound, Option.some.injEq, exists_eq_left', Ne, hvoid,
      Bool.not_eq_true]
  induction item using operand_induction with
  | group mark inner ih =>
    obtain ⟨type, hfound, htype⟩ := htyped.self
    cases htype with
    | group hinner =>
      have hinside : findings.HasValue inner ↔ inner.IsValue := ih (htyped.child List.mem_cons_self)
      refine Iff.trans ?_ hinside
      simp only [Findings.HasValue, hfound, hinner]
  | binary mark left operator right => exact hplain htyped.self nofun
  | other item hgroup =>
    rw [hplain htyped.self hgroup]
    cases item with
    | group mark inner => exact absurd rfl (hgroup mark inner)
    | _ => rfl

end Expr

/-! ### Blocks that are not checked -/

namespace Declaration

def recorded : Declaration → List Nat
  | .scenario decl =>
    if decl.function.isNone then decl.table.toList.flatMap fun inner => (Node.table inner).recorded
    else (Node.scenario decl).recorded
  | item => (Node.ofDeclaration item).recorded

theorem mem_children_of_mem_untested {item : Declaration} {block : Node}
    (h : block ∈ item.untested) : block ∈ (Node.ofDeclaration item).children := by
  cases item with
  | scenario decl =>
    rw [untested] at h
    split at h
    · exact ScenarioDecl.mem_children_of_mem_blocks h
    · cases h
  | _ => cases h

/-- What is recorded is not in the blocks that are not checked. -/
theorem subperm_untested (item : Declaration) :
    (item.recorded ++ item.untested.flatMap Node.numbers).Subperm
      (Node.ofDeclaration item).numbers := by
  have hwhole (node : Node) : node.recorded.Subperm node.numbers :=
    (List.sublist_append_left _ _).subperm.trans node.subperm_numbers
  have hall (node : Node) : (node.recorded ++ []).Subperm node.numbers := by
    rw [List.append_nil]
    exact hwhole node
  cases item with
  | scenario decl =>
    by_cases hnone : decl.function.isNone = true
    · rw [recorded, untested, if_pos hnone, if_pos hnone]
      refine List.subperm_iff_count.2 fun number => ?_
      rw [Node.ofDeclaration, Node.collect_scenario Node.numbers_of_isTyped]
      have htable : _ ≤ (decl.table.toList.flatMap fun inner => (Node.table inner).numbers).count
          number := count_flatMap_le fun inner _ => (hwhole (Node.table inner)).count_le number
      simp only [ScenarioDecl.blocks, Option.toList_map, List.flatMap_append, List.flatMap_map,
        List.count_append] at htable ⊢
      omega
    · rw [recorded, untested, if_neg hnone, if_neg hnone]
      exact hall _
  | _ => exact hall _

end Declaration

namespace Check

variable {env : TypeEnv}

/-- In a scenario without a function under test, only the table is checked. -/
theorem sound_subject {tests : ScenarioDecl} (h : tests.function = none) :
    Sound (scenario env tests) (tests.table.toList.flatMap fun inner => (Node.table inner).keys)
      fun _ _ => True := by
  unfold scenario testedFunction
  rw [h]
  simp only [pure_bind]
  refine Sound.mono ((sound_enumerationIn tests).bind fun _ => ?_) (List.Subperm.refl _)
    fun _ _ h => h
  refine (sound_forM_option fun inner _ => sound_table inner).bindRest fun _ => ?_
  exact sound_reportIf (.pure fun _ _ _ _ => trivial)

theorem sound_recorded (item : Declaration) :
    Sound (root env item) (item.recorded.flatMap FindingKey.all) fun _ _ => True := by
  have hall (item : Declaration) :
      Sound (root env item) ((Node.ofDeclaration item).recorded.flatMap FindingKey.all)
        fun _ _ => True := (sound_root item).weaken fun _ _ _ => trivial
  cases item with
  | scenario tests =>
    rw [Declaration.recorded]
    split
    · next hnone =>
      rw [List.flatMap_assoc]
      exact sound_subject (Option.isNone_iff_eq_none.1 hnone)
    · exact hall (.scenario tests)
  | _ => exact hall _

end Check

/-! ### Values of a document -/

theorem Node.mem_walk_of_mem_values {node : Node} {value : Expr} (h : value ∈ node.values) :
    expression value ∈ node.walk := by
  cases node with
  | expression item =>
    refine mem_walk_expression ?_ (mem_walk_self _)
    cases item <;> simp_all [Node.values, Expr.values, Expr.children]
  | definition item => exact mem_walk_of_mem_children (List.mem_map_of_mem h) (mem_walk_self _)
  | row item => exact mem_walk_of_mem_children (List.mem_map_of_mem h) (mem_walk_self _)
  | _ => cases h

theorem Node.mem_values_of_caseValue? {item value : Expr} (h : item.caseValue? = some value) :
    value ∈ (expression item).values := by
  cases item <;> cases h
  exact List.mem_cons_self

theorem Node.everyValue_of_typed {env : TypeEnv} {findings : Findings} {node : Node}
    (hvalued : findings.Valued) (htyped : node.Everywhere (Node.Typed env findings)) :
    node.EveryValue fun value => findings.HasValue value ↔ value.IsValue :=
  fun _ hnode _ hvalue =>
    Expr.hasValue_iff hvalued ((htyped.below hnode).below (mem_walk_of_mem_values hvalue))

namespace TypeEnv

variable {env : TypeEnv} {order : List Nat} {log : Log}
  (hperm : order.Perm (List.range env.document.declarations.length))

include hperm

/-- If no type is taken over from a statement, no statement is used as a value in a document without
errors, and no variable is of the type `void`. -/
theorem usesValues_check (hnumbers : env.document.numbers.Nodup)
    (herrors : (env.check order log).2.hasErrors = false)
    (hwell : ∀ item ∈ env.document.declarations, (Node.ofDeclaration item).AllWellFormed)
    (hcovered : ∀ item ∈ env.document.declarations, item.Covered)
    (hguarded : ∀ item ∈ env.document.declarations, (Node.ofDeclaration item).Guarded) :
    (env.check order log).1.Valued ∧
      ∀ item ∈ env.document.declarations, (Node.ofDeclaration item).UsesValues := by
  have hcolumns := columnsResolve_check hperm hnumbers herrors
  have hmem (item : Declaration) : item ∈ order.filterMap (env.document.declarations[·]?) ↔
      item ∈ env.document.declarations := (Document.perm_declarations hperm).mem_iff
  have hkeeps : Check.Keeps True (Check.roots env order) fun _ =>
      ∀ item ∈ order.filterMap (env.document.declarations[·]?),
        (Node.ofDeclaration item).UsesValues := by
    refine Check.keeps_forM fun item hitem => Check.keeps_ownedBy ?_ item.name
    have hitem := (hmem item).1 hitem
    exact Check.keeps_root hcolumns (hguarded item hitem) (hcovered item hitem) (hwell item hitem)
  obtain ⟨hvalued, huses⟩ := hkeeps.post trivial { log } (.start log) herrors
  exact ⟨hvalued.findings, fun item hitem => huses item ((hmem item).2 hitem)⟩

/-- Nothing is recorded for what is in blocks that are not checked. -/
theorem find?_check_of_mem_untested (hnumbers : env.document.numbers.Nodup) {item : Declaration}
    (hitem : item ∈ env.document.declarations) {block : Node} (hblock : block ∈ item.untested)
    {value : Expr} (hvalue : Node.expression value ∈ block.walk) :
    (env.check order log).1.types.find? value.id = none := by
  refine find?_check_eq_none Check.sound_recorded hperm fun hmem => ?_
  have hnumber : value.id ∈ env.document.declarations.flatMap
      fun item => item.untested.flatMap Node.numbers :=
    List.mem_flatMap.2 ⟨item, hitem, List.mem_flatMap.2
      ⟨block, hblock, List.mem_filterMap.2 ⟨_, hvalue, rfl⟩⟩⟩
  have hnodup := Document.nodup_append hnumbers Declaration.subperm_untested
  exact (List.nodup_append.1 hnodup).2.2 _ hmem _ hnumber rfl

theorem covered_check (hnumbers : env.document.numbers.Nodup) {item : Declaration}
    (hitem : item ∈ env.document.declarations)
    (hvalues : (Node.ofDeclaration item).EveryValue (env.check order log).1.HasValue) :
    item.Covered := by
  have hfound {node : Node} (hnode : node ∈ (Node.ofDeclaration item).walk) {value : Expr}
      (hvalue : value ∈ node.values) : (env.check order log).1.types.find? value.id ≠ none := by
    obtain ⟨type, htype, _⟩ := hvalues node hnode value hvalue
    exact fun hnone => Option.some_ne_none type (htype.symm.trans hnone)
  refine ⟨fun node hnode => ?_, fun block hblock node hnode => ?_⟩
  · refine List.eq_nil_iff_forall_not_mem.2 fun stray hstray => ?_
    obtain ⟨value, hvalue⟩ := Option.isSome_iff_exists.1 (Node.isSome_of_mem_strayCases hstray)
    refine hfound (Node.mem_walk_trans (Node.mem_walk_of_mem_strayCases hstray) hnode)
      (Node.mem_values_of_caseValue? hvalue) ?_
    exact find?_check_of_mem_strayCases hperm hnumbers hitem hnode hstray hvalue
  · refine List.eq_nil_iff_forall_not_mem.2 fun value hvalue => ?_
    have hpart := Declaration.mem_children_of_mem_untested hblock
    refine hfound (Node.mem_walk_of_mem_children hpart hnode) hvalue ?_
    exact find?_check_of_mem_untested hperm hnumbers hitem hblock
      (Node.mem_walk_trans (Node.mem_walk_of_mem_values hvalue) hnode)

/-- In a declaration of which everything is checked, exactly the statements have no value. -/
theorem everyValue_check (hnumbers : env.document.numbers.Nodup)
    (herrors : (env.check order log).2.hasErrors = false) {item : Declaration}
    (hitem : item ∈ env.document.declarations)
    (hwell : (Node.ofDeclaration item).AllWellFormed) (hcovered : item.Covered)
    (hvalued : (env.check order log).1.Valued) :
    (Node.ofDeclaration item).EveryValue fun value =>
      (env.check order log).1.HasValue value ↔ value.IsValue := by
  have hcolumns := columnsResolve_check hperm hnumbers herrors
  have hregular : (Node.ofDeclaration item).AllRegular := hwell.imp fun _ => Node.WellFormed.regular
  have hunit (unit : Node) (hunit : unit ∈ item.units) : unit.EveryValue fun value =>
      (env.check order log).1.HasValue value ↔ value.IsValue := by
    have htyped : unit.Everywhere (Node.Typed env (env.check order log).1) :=
      typed_check hperm hnumbers herrors hitem hregular hunit
        (hcovered.stray.below (Declaration.mem_walk_of_mem_units hunit))
    exact Node.everyValue_of_typed hvalued htyped
  cases item with
  | function | table | record => exact hunit _ List.mem_cons_self
  | enumeration decl => exact Node.everyValue_enumeration decl
  | scenario tests =>
    refine Node.everyValue_scenario (fun inner hinner => hunit _ ?_)
      (fun inner hinner => hunit _ ?_) fun block hblock => ?_
    · have hmem : inner ∈ tests.inlineFunction? := by simp [ScenarioDecl.inlineFunction?, hinner]
      exact List.mem_append_left _ (List.mem_map_of_mem (Option.mem_toList.2 hmem))
    · exact List.mem_append_right _ (List.mem_map_of_mem (Option.mem_toList.2 hinner))
    · have hpart := ScenarioDecl.mem_children_of_mem_blocks hblock
      by_cases hnone : tests.function.isNone = true
      · have hmem : block ∈ (Declaration.scenario tests).untested := by
          rwa [Declaration.untested, if_pos hnone]
        intro node hnode value hvalue
        rw [hcovered.untested block hmem node hnode] at hvalue
        cases hvalue
      · have hsome : tests.function.isSome = true := by simpa [Option.isSome_iff_ne_none] using hnone
        have htyped := post_check Check.sound_blocks hperm hnumbers herrors _ hitem tests rfl
          hsome hcolumns block hblock (Node.Everywhere.part hwell hpart).self
        refine Node.everyValue_of_typed hvalued (htyped.everywhere
          (ScenarioDecl.expression?_of_mem_blocks hblock) (Node.ne_body_of_mem_children rfl hpart)
          (Node.Everywhere.part hregular hpart) (Node.Everywhere.part hcovered.stray hpart))

end TypeEnv

/-- In a document that is checked without errors, each of the following says that no statement is
used as a value: all that is used has a type, none is `void`, and neither is that of any variable;
everything is checked, and nothing that is used is a statement; everything is checked, and no type
is taken over from a statement. -/
theorem Dialect.Compiles.valued_tfae {dialect : Dialect} {options : CompileOptions}
    {compiled : Compiled} (h : dialect.Compiles options compiled) (hchecks : options.checks = true)
    (herrors : compiled.log.errors = []) :
    [compiled.findings.Valued ∧ ∀ item ∈ compiled.document.declarations,
        (Node.ofDeclaration item).EveryValue compiled.findings.HasValue,
      ∀ item ∈ compiled.document.declarations,
        item.Covered ∧ (Node.ofDeclaration item).EveryValue Expr.IsValue,
      ∀ item ∈ compiled.document.declarations, item.Covered ∧
        (Node.ofDeclaration item).Everywhere fun node =>
          ∀ value ∈ node.inferring, value.IsValue].TFAE := by
  obtain ⟨_, hnumbers, hregular, order, log, hperm, _, hcheck, herrors⟩ :=
    h.exists_check hchecks herrors
  have hwell := h.allWellFormed
  let env : TypeEnv := ⟨compiled.document, dialect.rules⟩
  have hfindings : (env.check order log).1 = compiled.findings := congrArg Prod.fst hcheck
  rw [← show (env.check order log).2 = compiled.log from congrArg Prod.snd hcheck] at herrors
  rw [← hfindings]
  have hiff (hvalued : (env.check order log).1.Valued) (item : Declaration)
      (hitem : item ∈ env.document.declarations) (hcovered : item.Covered) :=
    env.everyValue_check hperm hnumbers herrors hitem (hwell item hitem) hcovered hvalued
  tfae_have 1 → 2 := by
    rintro ⟨hvalued, hvalues⟩ item hitem
    have hcovered := env.covered_check hperm hnumbers hitem (hvalues item hitem)
    exact ⟨hcovered, fun node hnode value hvalue =>
      (hiff hvalued item hitem hcovered node hnode value hvalue).1
        (hvalues item hitem node hnode value hvalue)⟩
  tfae_have 2 → 3 := by
    intro huses item hitem
    obtain ⟨hcovered, hvalues⟩ := huses item hitem
    exact ⟨hcovered, fun node hnode value hvalue =>
      hvalues node hnode value (Node.mem_values_of_mem_inferring hvalue)⟩
  tfae_have 3 → 1 := by
    intro hinferring
    have hcovered (item : Declaration) (hitem : item ∈ env.document.declarations) :=
      (hinferring item hitem).1
    have hguarded (item : Declaration) (hitem : item ∈ env.document.declarations) :
        (Node.ofDeclaration item).Guarded := fun node hnode =>
      ⟨(hcovered item hitem).stray node hnode, hregular item hitem node hnode,
        (hinferring item hitem).2 node hnode⟩
    obtain ⟨hvalued, huses⟩ :=
      env.usesValues_check hperm hnumbers herrors hwell hcovered hguarded
    exact ⟨hvalued, fun item hitem node hnode value hvalue =>
      (hiff hvalued item hitem (hcovered item hitem) node hnode value hvalue).2
        (huses item hitem node hnode value hvalue)⟩
  tfae_finish

namespace Dialect

/-- A variable and a switch that take over the types of values. -/
def inferredTypes : List String :=
  ["function F", "  code", "    var X = (1)", "    switch X", "      case 1", "        X = X + 1"]

theorem valued_tfae_inferredTypes :
    ∃ compiled, ({} : Dialect).compileLines {} "inferred" inferredTypes = .ok compiled ∧
      ({} : CompileOptions).checks = true ∧ compiled.log.errors = [] ∧
      [compiled.findings.Valued ∧ ∀ item ∈ compiled.document.declarations,
          (Node.ofDeclaration item).EveryValue compiled.findings.HasValue,
        ∀ item ∈ compiled.document.declarations,
          item.Covered ∧ (Node.ofDeclaration item).EveryValue Expr.IsValue,
        ∀ item ∈ compiled.document.declarations, item.Covered ∧
          (Node.ofDeclaration item).Everywhere fun node =>
            ∀ value ∈ node.inferring, value.IsValue].TFAE ∧
      ∀ item ∈ compiled.document.declarations,
        (Node.ofDeclaration item).EveryValue compiled.findings.HasValue := by
  have hok : (({} : Dialect).compileLines {} "inferred" inferredTypes).toOption.any (fun compiled =>
      compiled.log.errors.isEmpty && compiled.document.declarations.all fun item =>
        item.untested.isEmpty && (Node.ofDeclaration item).walk.all fun node =>
          node.strayCases.isEmpty && node.inferring.all fun value =>
            value.ungrouped.isStatement == false) = true := by
    decide +kernel
  obtain ⟨compiled, hcompile, hall⟩ := (Option.any_eq_true _ _).1 hok
  have hcompile := compileLines_eq_ok hcompile
  simp only [Bool.and_eq_true, List.isEmpty_iff, List.all_eq_true, beq_iff_eq] at hall
  obtain ⟨herrors, hall⟩ := hall
  have htfae := Compiles.valued_tfae (.lines _ _ hcompile) rfl herrors
  have hvalues := htfae.out 2 0
  refine ⟨compiled, hcompile, rfl, herrors, htfae, (hvalues.1 fun item hitem => ?_).2⟩
  obtain ⟨huntested, hwalk⟩ := hall item hitem
  refine ⟨⟨fun node hnode => (hwalk node hnode).1, ?_⟩, fun node hnode => (hwalk node hnode).2⟩
  rw [huntested]
  exact List.forall_mem_nil _

/-- A variable without a written type, with a declaration in parentheses as its default value. -/
def statementDefault : List String := ["function F", "  code", "    var X = (number Y)"]

/-- The default value and the variable are of the type `void`, and no error says so. -/
theorem not_valued_statementDefault :
    ∃ compiled, ({} : Dialect).compileLines {} "statement" statementDefault = .ok compiled ∧
      ({} : CompileOptions).checks = true ∧ compiled.log.errors = [] ∧
      ¬ compiled.findings.Valued ∧ ¬ ∀ item ∈ compiled.document.declarations,
        (Node.ofDeclaration item).EveryValue compiled.findings.HasValue := by
  have hok : (({} : Dialect).compileLines {} "statement" statementDefault).toOption.any
      (fun compiled => compiled.log.errors.isEmpty && compiled.document.declarations.any fun item =>
        (Node.ofDeclaration item).walk.any fun node => node.values.any fun value =>
          compiled.findings.type? value == some .void && node.expression?.any fun part =>
            compiled.findings.definitions.find? part.id == some .void) = true := by
    decide +kernel
  obtain ⟨compiled, hcompile, hall⟩ := (Option.any_eq_true _ _).1 hok
  have hcompile := compileLines_eq_ok hcompile
  simp only [Bool.and_eq_true, List.isEmpty_iff, List.any_eq_true, Option.any_eq_true,
    beq_iff_eq] at hall
  obtain ⟨herrors, item, hitem, node, hnode, value, hvalue, htype, part, _, hdefinition⟩ := hall
  refine ⟨compiled, hcompile, rfl, herrors, fun hvalued => ?_, fun hvalues => ?_⟩
  · exact hvalued.definitions part.id .void hdefinition rfl
  · obtain ⟨type, hfound, hvoid⟩ := hvalues item hitem node hnode value hvalue
    exact hvoid (Option.some.inj (hfound.symm.trans htype))

end Dialect

end DecisionLang
