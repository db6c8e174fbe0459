import DecisionLang.Proofs.Compile

/-!
# Findings of a document

The findings of a document that was checked without errors form a derivation, with one exception:
a case with a value can stand where no switch checks the value. Nothing is recorded for such values,
since all numbers of a document differ. Main statement: `Dialect.Compiles.typed_iff`.
-/

namespace DecisionLang

/-! ### Stray values -/

namespace Node

theorem mem_walk_of_mem_strayCases {node : Node} {item : Expr} (h : item ∈ node.strayCases) :
    expression item ∈ node.walk := by
  cases node with
  | expression whole =>
    refine mem_walk_expression ?_ (mem_walk_self _)
    cases whole with
    | switch mark subject cases =>
      have hmem : item = subject := List.mem_singleton.1 (List.mem_filter.1 h).1
      exact hmem ▸ List.mem_cons_self
    | _ => exact (List.mem_filter.1 h).1
  | body => cases h
  | _ =>
    obtain ⟨child, hchild, hexpression⟩ := List.mem_filterMap.1 (List.mem_filter.1 h).1
    obtain rfl : child = expression item := by
      cases child <;> cases hexpression
      rfl
    exact mem_walk_of_mem_children hchild (mem_walk_self _)

theorem mem_walk_of_caseValue? {item value : Expr} (hvalue : item.caseValue? = some value) :
    expression value ∈ (expression item).walk := by
  cases item <;> cases hvalue
  exact mem_walk_expression List.mem_cons_self (mem_walk_self _)

theorem mem_strayNumbers {root node : Node} (hnode : node ∈ root.walk) {item value : Expr}
    (h : item ∈ node.strayCases) (hvalue : item.caseValue? = some value) :
    value.id ∈ root.strayNumbers := by
  refine List.mem_flatMap.2 ⟨node, hnode, List.mem_map_of_mem ?_⟩
  exact List.mem_filterMap.2 ⟨item, h, hvalue⟩

theorem isSome_of_mem_strayCases {node : Node} {item : Expr} (h : item ∈ node.strayCases) :
    item.caseValue?.isSome = true := by
  cases node with
  | body => cases h
  | _ => exact (List.mem_filter.1 h).2

end Node

/-! ### Keys of a document -/

namespace FindingKey

theorem mem_flatMap_all {numbers : List Nat} {kind : FindingKind} {id : Nat} :
    (kind, id) ∈ numbers.flatMap all ↔ id ∈ numbers := by
  cases kind <;> simp [all]

theorem nodup_flatMap_all {numbers : List Nat} (h : numbers.Nodup) :
    (numbers.flatMap all).Nodup := by
  refine List.nodup_flatMap.2 ⟨fun id _ => by simp [all], h.imp fun hne => ?_⟩
  simpa [all, List.Disjoint] using hne

end FindingKey

namespace Document

variable {document : Document}

def numbers (document : Document) : List Nat := (Receiver.document document).numbers

/-- Numbers that are recorded when all declarations of a document are checked. -/
def recorded (document : Document) : List Nat :=
  document.declarations.flatMap fun item => (Node.ofDeclaration item).recorded

def strayNumbers (document : Document) : List Nat :=
  document.declarations.flatMap fun item => (Node.ofDeclaration item).strayNumbers

/-- Numbers of two kinds are different ones in the document if they are in each declaration. -/
theorem nodup_append {f g : Declaration → List Nat} (hnumbers : document.numbers.Nodup)
    (h : ∀ item, (f item ++ g item).Subperm (Node.ofDeclaration item).numbers) :
    (document.declarations.flatMap f ++ document.declarations.flatMap g).Nodup := by
  have hsubperm : (document.declarations.flatMap f ++ document.declarations.flatMap g).Subperm
      document.numbers := by
    apply List.subperm_iff_count.2
    intro number
    rw [List.count_append, ← count_flatMap_append]
    exact count_flatMap_le fun item _ => (h item).count_le number
  obtain ⟨_, hperm, hsublist⟩ := hsubperm
  exact hperm.nodup_iff.1 (hnumbers.sublist hsublist)

theorem nodup_recorded (hnumbers : document.numbers.Nodup) :
    (document.recorded ++ document.strayNumbers).Nodup :=
  nodup_append hnumbers fun item => (Node.ofDeclaration item).subperm_numbers

theorem perm_declarations {order : List Nat}
    (h : order.Perm (List.range document.declarations.length)) :
    (order.filterMap (document.declarations[·]?)).Perm document.declarations := by
  have hall : (List.range document.declarations.length).map (document.declarations[·]?) =
      document.declarations.map some := List.ext_getElem (by simp) (by simp)
  have hrange : (List.range document.declarations.length).filterMap (document.declarations[·]?) =
      document.declarations := by
    have hsome := congrArg (List.filterMap id) hall
    simpa [List.filterMap_map, Function.comp_def] using hsome
  have hperm := h.filterMap (document.declarations[·]?)
  rwa [hrange] at hperm

theorem perm_keys {order : List Nat}
    (h : order.Perm (List.range document.declarations.length)) :
    ((order.filterMap (document.declarations[·]?)).flatMap fun item =>
      (Node.ofDeclaration item).keys).Perm (document.recorded.flatMap FindingKey.all) := by
  apply ((perm_declarations h).flatMap_right _).trans
  unfold recorded Node.keys
  rw [List.flatMap_assoc]

end Document

theorem Declaration.mem_walk_of_mem_units {item : Declaration} {unit : Node}
    (h : unit ∈ item.units) : unit ∈ (Node.ofDeclaration item).walk := by
  cases item with
  | enumeration => cases h
  | scenario decl =>
    rcases List.mem_append.1 h with h | h
    · obtain ⟨inner, hinner, rfl⟩ := List.mem_map.1 h
      have hfunction : decl.function = some (.inline inner) := by
        have hinner := Option.mem_toList.1 hinner
        unfold ScenarioDecl.inlineFunction? at hinner
        split at hinner <;> cases hinner
        assumption
      have hchild : Node.function inner ∈ (Node.scenario decl).children := by
        simp [Node.children, Node.ofScenario, hfunction, Node.ofTestedFunction]
      exact Node.mem_walk_of_mem_children hchild (Node.mem_walk_self _)
    · obtain ⟨inner, hinner, rfl⟩ := List.mem_map.1 h
      have hchild : Node.table inner ∈ (Node.scenario decl).children := by
        simp [Node.children, Node.ofScenario, Option.mem_toList.1 hinner]
      exact Node.mem_walk_of_mem_children hchild (Node.mem_walk_self _)
  | _ =>
    obtain rfl := List.mem_singleton.1 h
    exact Node.mem_walk_self _

theorem Declaration.not_body_of_mem_units {item : Declaration} {unit : Node}
    (h : unit ∈ item.units) :
    unit.expression? = none ∧ ∀ reference lines, unit ≠ .body reference lines := by
  cases item with
  | enumeration => cases h
  | scenario decl =>
    rcases List.mem_append.1 h with h | h
    · obtain ⟨inner, _, rfl⟩ := List.mem_map.1 h
      exact ⟨rfl, fun _ _ heq => Node.noConfusion heq⟩
    · obtain ⟨inner, _, rfl⟩ := List.mem_map.1 h
      exact ⟨rfl, fun _ _ heq => Node.noConfusion heq⟩
  | _ =>
    obtain rfl := List.mem_singleton.1 h
    exact ⟨rfl, fun _ _ heq => Node.noConfusion heq⟩

/-! ### Checking a document -/

namespace TypeEnv

variable {env : TypeEnv} {order : List Nat} {log : Log}

/-- Nothing is recorded under numbers that no root declaration is checked with. -/
theorem find?_check_eq_none {f : Declaration → List Nat}
    (h : ∀ item, Check.Sound (Check.root env item) ((f item).flatMap FindingKey.all)
      fun _ _ => True)
    (hperm : order.Perm (List.range env.document.declarations.length)) {number : Nat}
    (hnumber : number ∉ env.document.declarations.flatMap f) :
    (env.check order log).1.types.find? number = none := by
  have hroots : Check.Sound (Check.roots env order) _ _ :=
    Check.sound_forM fun item _ => Check.sound_ownedBy (h item) item.name
  refine hroots.frame { log } (.type, number) ?_
  rw [← List.flatMap_assoc, FindingKey.mem_flatMap_all]
  rwa [((Document.perm_declarations hperm).flatMap_right f).mem_iff]

theorem find?_check_of_mem_strayCases
    (hperm : order.Perm (List.range env.document.declarations.length))
    (hnumbers : env.document.numbers.Nodup) {item : Declaration}
    (hitem : item ∈ env.document.declarations) {node : Node}
    (hnode : node ∈ (Node.ofDeclaration item).walk) {stray value : Expr}
    (hstray : stray ∈ node.strayCases) (hvalue : stray.caseValue? = some value) :
    (env.check order log).1.types.find? value.id = none := by
  refine find?_check_eq_none (f := fun item => (Node.ofDeclaration item).recorded)
    (fun item => (Check.sound_root item).weaken fun _ _ _ => trivial) hperm fun hmem => ?_
  have hnumber : value.id ∈ env.document.strayNumbers :=
    List.mem_flatMap.2 ⟨item, hitem, Node.mem_strayNumbers hnode hstray hvalue⟩
  exact (List.nodup_append.1 (Document.nodup_recorded hnumbers)).2.2 _ hmem _ hnumber rfl

/-- What the check of a root declaration finds out holds in the end if no errors are logged. -/
theorem post_check {P : Declaration → Findings → Prop}
    (h : ∀ item, Check.Sound (Check.root env item) (Node.ofDeclaration item).keys
      fun final _ => P item final)
    (hperm : order.Perm (List.range env.document.declarations.length))
    (hnumbers : env.document.numbers.Nodup) (herrors : (env.check order log).2.hasErrors = false) :
    ∀ item ∈ env.document.declarations, P item (env.check order log).1 := by
  have hnodup : ((order.filterMap (env.document.declarations[·]?)).flatMap
      fun item => (Node.ofDeclaration item).keys).Nodup := by
    refine (Document.perm_keys hperm).nodup_iff.2 (FindingKey.nodup_flatMap_all ?_)
    exact (List.nodup_append.1 (Document.nodup_recorded hnumbers)).1
  have hroots : Check.Sound (Check.roots env order) _ _ :=
    Check.sound_forM fun item _ => Check.sound_ownedBy (h item) item.name
  intro item hitem
  exact hroots.post { log } hnodup herrors _ (fun key _ => .refl _ key) item
    ((Document.perm_declarations hperm).mem_iff.2 hitem)

theorem rootTyped_check (hperm : order.Perm (List.range env.document.declarations.length))
    (hnumbers : env.document.numbers.Nodup) (herrors : (env.check order log).2.hasErrors = false) :
    ∀ item ∈ env.document.declarations, Check.RootTyped env (env.check order log).1 item :=
  post_check Check.sound_root hperm hnumbers herrors

theorem columnsResolve_check (hperm : order.Perm (List.range env.document.declarations.length))
    (hnumbers : env.document.numbers.Nodup) (herrors : (env.check order log).2.hasErrors = false) :
    env.ColumnsResolve :=
  fun decl hdecl => (rootTyped_check hperm hnumbers herrors _ hdecl).1 decl rfl

theorem typed_check (hperm : order.Perm (List.range env.document.declarations.length))
    (hnumbers : env.document.numbers.Nodup) (herrors : (env.check order log).2.hasErrors = false)
    {item : Declaration} (hitem : item ∈ env.document.declarations)
    (hregular : (Node.ofDeclaration item).AllRegular) {unit : Node} (hunit : unit ∈ item.units)
    (hstray : ∀ node ∈ unit.walk, node.strayCases = []) :
    unit.Everywhere (Node.Typed env (env.check order log).1) := by
  have hroot := rootTyped_check hperm hnumbers herrors item hitem
  have hcolumns := columnsResolve_check hperm hnumbers herrors
  have hregular : unit.AllRegular := hregular.below (Declaration.mem_walk_of_mem_units hunit)
  obtain ⟨hexpression, hbody⟩ := Declaration.not_body_of_mem_units hunit
  exact (hroot.2 hcolumns unit hunit hregular.self).everywhere hexpression hbody
    hregular hstray

end TypeEnv

/-- A document without errors was checked in an order in which each declaration comes after the others
whose names occur in it. -/
theorem Dialect.Compiles.exists_check {dialect : Dialect} {options : CompileOptions}
    {compiled : Compiled} (h : dialect.Compiles options compiled) (hchecks : options.checks = true)
    (herrors : compiled.log.errors = []) :
    compiled.document.names.Nodup ∧ compiled.document.numbers.Nodup ∧
      (∀ item ∈ compiled.document.declarations, (Node.ofDeclaration item).AllRegular) ∧
      ∃ order log, order.Perm (List.range compiled.document.declarations.length) ∧
        (∀ index other declaration dependency,
          compiled.document.declarations[index]? = some declaration →
          compiled.document.declarations[other]? = some dependency → other ≠ index →
          dependency.name ∈ declaration.referredNames →
          order.idxOf other < order.idxOf index) ∧
        TypeEnv.check ⟨compiled.document, dialect.rules⟩ order log =
          (compiled.findings, compiled.log) ∧
        compiled.log.hasErrors = false := by
  obtain ⟨progress, hreads, rfl, _⟩ := h.exists_reads
  have hcoherent := hreads.coherent Progress.coherent_start
  rw [hchecks] at herrors ⊢
  have herrors := Log.hasErrors_eq_false_iff.2 herrors
  obtain ⟨order, hsorted, hperm, hrefers⟩ := Compiled.exists_sorted hreads herrors
  have horder : (DependencyGraph.ofDocument progress.document).checkOrder = order := by
    unfold DependencyGraph.checkOrder
    rw [hsorted]
    rfl
  subst horder
  exact ⟨(Compiled.nodup_names hreads herrors).1, hcoherent.numbers.nodup, hcoherent.regular, _,
    (DependencyGraph.ofDocument progress.document).reportCircular progress.document progress.log,
    hperm, hrefers, rfl, herrors⟩

/-- In a document that is checked without errors, what is recorded for a function, table or record
type is a derivation exactly if no case with a value stands outside of a switch. -/
theorem Dialect.Compiles.typed_iff {dialect : Dialect} {options : CompileOptions}
    {compiled : Compiled} (h : dialect.Compiles options compiled) (hchecks : options.checks = true)
    (herrors : compiled.log.errors = []) {item : Declaration}
    (hitem : item ∈ compiled.document.declarations) {unit : Node} (hunit : unit ∈ item.units) :
    (∀ node ∈ unit.walk, node.Typed ⟨compiled.document, dialect.rules⟩ compiled.findings) ↔
      ∀ node ∈ unit.walk, node.strayCases = [] := by
  obtain ⟨_, hnumbers, hregular, order, log, hperm, _, hcheck, herrors⟩ :=
    h.exists_check hchecks herrors
  let env : TypeEnv := ⟨compiled.document, dialect.rules⟩
  have hfindings : (env.check order log).1 = compiled.findings := congrArg Prod.fst hcheck
  have hlog : (env.check order log).2 = compiled.log := congrArg Prod.snd hcheck
  rw [← hlog] at herrors
  constructor
  · intro htyped node hnode
    apply List.eq_nil_iff_forall_not_mem.2
    intro stray hstray
    obtain ⟨value, hvalue⟩ := Option.isSome_iff_exists.1 (Node.isSome_of_mem_strayCases hstray)
    have hbelow := Node.mem_walk_trans (Node.mem_walk_of_caseValue? hvalue)
      (Node.mem_walk_of_mem_strayCases hstray)
    obtain ⟨type, htype, _⟩ := htyped _ (Node.mem_walk_trans hbelow hnode)
    have hroot := Node.mem_walk_trans hnode (Declaration.mem_walk_of_mem_units hunit)
    have hnone : (env.check order log).1.types.find? value.id = none :=
      env.find?_check_of_mem_strayCases hperm hnumbers hitem hroot hstray hvalue
    rw [hfindings] at hnone
    exact Option.some_ne_none type (htype.symm.trans hnone)
  · rw [← hfindings]
    exact env.typed_check hperm hnumbers herrors hitem (hregular item hitem) hunit

namespace Dialect

theorem typed_iff_forwardCall :
    ∃ compiled item unit, ({} : Dialect).compileLines {} "calls" forwardCall = .ok compiled ∧
      ({} : CompileOptions).checks = true ∧ compiled.log.errors = [] ∧
      item ∈ compiled.document.declarations ∧ unit ∈ item.units ∧
      ((∀ node ∈ unit.walk,
          node.Typed ⟨compiled.document, ({} : Dialect).rules⟩ compiled.findings) ↔
        ∀ node ∈ unit.walk, node.strayCases = []) := by
  have hok : (({} : Dialect).compileLines {} "calls" forwardCall).toOption.any (fun compiled =>
      compiled.log.errors.isEmpty && compiled.document.declarations.any fun item =>
        item.units.any fun _ => true) = true := by decide +kernel
  obtain ⟨compiled, hcompile, hall⟩ := (Option.any_eq_true _ _).1 hok
  have hcompile := compileLines_eq_ok hcompile
  simp only [Bool.and_eq_true, List.isEmpty_iff, List.any_eq_true] at hall
  obtain ⟨herrors, item, hitem, unit, hunit, _⟩ := hall
  exact ⟨compiled, item, unit, hcompile, rfl, herrors, hitem, hunit,
    Compiles.typed_iff (.lines _ _ hcompile) rfl herrors hitem hunit⟩

/-- A case with a value in parentheses, where no switch is. -/
def strayCase : List String := ["function Lone", "  code", "    (case 1)"]

/-- The value of the stray case has no type, and no error says so. -/
theorem untyped_strayCase :
    ∃ compiled item unit, ({} : Dialect).compileLines {} "stray" strayCase = .ok compiled ∧
      ({} : CompileOptions).checks = true ∧ compiled.log.errors = [] ∧
      item ∈ compiled.document.declarations ∧ unit ∈ item.units ∧
      ¬ ∀ node ∈ unit.walk,
        node.Typed ⟨compiled.document, ({} : Dialect).rules⟩ compiled.findings := by
  have hok : (({} : Dialect).compileLines {} "stray" strayCase).toOption.any (fun compiled =>
      compiled.log.errors.isEmpty && compiled.document.declarations.any fun item =>
        item.units.any fun unit => unit.walk.any fun node =>
          node.expression?.any fun part => (compiled.findings.type? part).isNone) = true := by
    decide +kernel
  obtain ⟨compiled, hcompile, hall⟩ := (Option.any_eq_true _ _).1 hok
  simp only [Bool.and_eq_true, List.isEmpty_iff, List.any_eq_true, Option.any_eq_true,
    Option.isNone_iff_eq_none] at hall
  obtain ⟨herrors, item, hitem, unit, hunit, node, hnode, part, hpart, hnone⟩ := hall
  have hcompile := compileLines_eq_ok hcompile
  refine ⟨compiled, item, unit, hcompile, rfl, herrors, hitem, hunit, fun htyped => ?_⟩
  obtain rfl : node = .expression part := by
    cases node <;> cases hpart
    rfl
  obtain ⟨type, htype, _⟩ := htyped _ hnode
  exact Option.some_ne_none type (htype.symm.trans hnone)

end Dialect

end DecisionLang
