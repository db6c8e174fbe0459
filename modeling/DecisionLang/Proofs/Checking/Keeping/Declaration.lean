import DecisionLang.Proofs.Checking.Declaration
import DecisionLang.Proofs.Checking.Keeping.Expression

/-!
# Declarations that use values

What holds of expressions is put together along a declaration: if all values of cases are checked
and no type is taken over from a statement, then no statement is used as a value, and no variable is
of the type `void`. Main statement: `Check.keeps_root`.
-/

namespace DecisionLang.Check

variable {env : TypeEnv} (hcolumns : env.ColumnsResolve) {given : Prop}

include hcolumns

theorem weighed_line {line : Expr} (h : Node.GuardedLine line) : Weighed env line :=
  weighed_expression hcolumns h.1.expression

omit hcolumns in
theorem standsForValue {line : Expr} (h : Node.GuardedLine line) (hline : Weighs line) :
    Node.StandsForValue line :=
  ⟨hline.1, Node.usesValues_expression h.1 h.2 hline.2⟩

theorem keeps_line {line : Expr} (h : Node.GuardedLine line) :
    Keeps given (discard (expression env line)) fun _ => (Node.expression line).UsesValues := by
  refine (weighed_line hcolumns h given).discard.weaken fun _ _ ⟨_, _, huses⟩ => ?_
  exact Node.usesValues_expression h.1 h.2 huses

theorem keeps_definition (origin : Origin) {item : Definition}
    (h : (Node.definition item).Guarded) :
    Keeps given (definition env origin item) fun _ => (Node.definition item).UsesValues := by
  have hdefault (value : Expr) (hvalue : value ∈ item.default) : Node.GuardedLine value :=
    h.child rfl (fun _ _ => Node.noConfusion)
      (List.mem_map_of_mem (Option.mem_toList.2 hvalue))
  refine (keeps_declaration (fun value hvalue => weighed_line hcolumns (hdefault value hvalue)) _
    origin fun himplicit value hvalue => ?_).weaken fun _ _ hall => ?_
  · refine (Node.Everywhere.self h).2.2 value ?_
    rw [Node.inferring, if_pos himplicit]
    exact Option.mem_toList.2 hvalue
  · exact Node.usesValues_definition fun value hvalue =>
      standsForValue (hdefault value hvalue) (hall value hvalue)

theorem keeps_function {decl : FunctionDecl} (h : (Node.function decl).Guarded) :
    Keeps given (function env decl) fun _ => (Node.function decl).UsesValues := by
  have hline (line : Expr) (hline : line ∈ decl.expressions) : Node.GuardedLine line := by
    obtain ⟨block, hblock, hmem⟩ := Node.Everywhere.exists_of_mem_elim hline
    have hpart : Node.code block ∈ (Node.function decl).children := by
      simp [Node.children, hblock]
    have hcode : (Node.code block).Guarded := Node.Everywhere.part h hpart
    exact hcode.child rfl (fun _ _ => Node.noConfusion) (List.mem_map_of_mem hmem)
  refine keeps_inScope ?_
  refine (keeps_forM fun item hitem =>
    keeps_definition hcolumns .parameters (Node.Everywhere.parameter h item hitem)).bind fun _ => ?_
  refine (keeps_forM fun item hitem =>
    keeps_definition hcolumns .results (Node.Everywhere.result h item hitem)).bind fun _ => ?_
  refine (keeps_forM fun line hmem => keeps_line hcolumns (hline line hmem)).weaken ?_
  exact fun hgiven _ hlines => Node.everyValue_function hgiven.1.2 hgiven.2 hlines

theorem keeps_record {decl : RecordDecl} (h : (Node.record decl).Guarded) :
    Keeps given (record env decl) fun _ => (Node.record decl).UsesValues := by
  refine keeps_inScope ((keeps_forM fun item hitem => ?_).weaken fun _ _ hmembers =>
    Node.everyValue_record hmembers)
  unfold recordMember
  split
  · exact (keeps_report _ _).absurd
  · exact keeps_definition hcolumns .record (Node.Everywhere.member h item hitem)

omit hcolumns in
theorem keeps_enumeration (env : TypeEnv) (decl : EnumDecl) :
    Keeps given (enumeration decl) fun _ => True :=
  keeps_of_sound env (sound_enumeration decl) (Rerun.repeats_enumeration decl)

/-! ### Tables -/

theorem keeps_row {columnTypes : List (Option Ty)} {item : TableRow}
    (h : (Node.row item).Guarded) (hlength : given → item.values.length = columnTypes.length)
    (htypes : given → ∀ type? ∈ columnTypes, FindsValue type?) :
    Keeps given (row env columnTypes item) fun _ => (Node.row item).UsesValues := by
  have hvalue (value : Expr) (hvalue : value ∈ item.values) : Node.GuardedLine value :=
    h.child rfl (fun _ _ => Node.noConfusion) (List.mem_map_of_mem hvalue)
  refine (keeps_forM (P := fun pair => Weighs pair.1) fun pair hpair => ?_).weaken
    fun hgiven _ hall => Node.usesValues_row fun value hmem => ?_
  · obtain ⟨hmem, htype⟩ := List.of_mem_zip hpair
    exact keeps_checkStored (weighed_line hcolumns (hvalue pair.1 hmem))
      fun hgiven => htypes hgiven pair.2 htype
  · refine standsForValue (hvalue value hmem) ?_
    rw [← List.map_fst_zip (Nat.le_of_eq (hlength hgiven))] at hmem
    obtain ⟨pair, hpair, rfl⟩ := List.mem_map.1 hmem
    exact hall pair hpair

omit hcolumns in
theorem keeps_columnHead (env : TypeEnv) (item : Column) :
    Keeps given (columnHead env item) FindsValue := by
  unfold columnHead
  refine keeps_reportIf (.pure fun hgiven => ?_)
  obtain ⟨type, htype⟩ := Option.ne_none_iff_exists'.1 (mt Option.isNone_iff_eq_none.2 hgiven.2)
  exact ⟨type, htype, TypeEnv.resolve?_ne_void htype⟩

theorem keeps_table {decl : TableDecl} (h : (Node.table decl).Guarded) :
    Keeps given (table env decl) fun _ => (Node.table decl).UsesValues := by
  unfold table
  split
  · exact (keeps_fail _ _).absurd
  · next header hheader =>
    have hlength (cells : TableRow) (hcells : cells ∈ decl.rows) :
        cells.values.length = header.columns.length := by
      have hregular := (Node.Everywhere.self h).2.1.2 cells hcells
      rwa [TableDecl.columns, hheader] at hregular
    refine (keeps_mapM fun item _ => keeps_columnHead env item).bind fun columnTypes => ?_
    refine (keeps_forM fun cells hcells => keeps_inScope (keeps_row hcolumns
      (Node.Everywhere.tableRow h cells hcells) (fun hgiven => ?_) fun hgiven => hgiven.2.2)).weaken
        fun _ _ hrows => Node.everyValue_table hrows
    exact (hlength cells hcells).trans hgiven.2.1.symm

/-! ### Scenarios -/

omit hcolumns in
theorem keeps_declareMembers (env : TypeEnv) (decl : FunctionDecl) (role : BlockRole) :
    Keeps given (declareMembers env decl role) fun _ => True := by
  refine (keeps_forM (P := fun _ => True) fun item _ => ?_).weaken fun _ _ _ => trivial
  split
  · next type htype =>
    have hvoid := (env.functionMembers_valued decl role).of_first? htype
    exact (keeps_declare fun _ => hvoid).discard.weaken fun _ _ _ => trivial
  · exact .pure fun _ => trivial

theorem keeps_assignments (decl : FunctionDecl) {role : BlockRole} {block : AssignmentBlock}
    (h : (Node.assignments role block).Guarded) :
    Keeps given (assignments env decl role block) fun _ =>
      (Node.assignments role block).UsesValues := by
  refine keeps_inScope ((keeps_declareMembers env decl role).bind fun _ => ?_)
  refine (keeps_forM fun line hline => keeps_line hcolumns (h.child rfl
    (fun _ _ => Node.noConfusion) (List.mem_map_of_mem hline))).weaken fun _ _ hlines => ?_
  exact Node.everyValue_of_children rfl (List.forall_mem_map.2 hlines)

omit hcolumns in
theorem keeps_validationHead (env : TypeEnv) (item : ValidationColumn) :
    Keeps given (validationHead env item) FindsValue := by
  refine (keeps_resolve? env _).bind fun resolved? => keeps_reportIf (.pure fun hgiven => ?_)
  obtain ⟨⟨_, hvalued⟩, hsome⟩ := hgiven
  obtain ⟨resolved, rfl⟩ := Option.ne_none_iff_exists'.1 (mt Option.isNone_iff_eq_none.2 hsome)
  exact ⟨resolved.type, rfl, hvalued resolved rfl⟩

theorem keeps_validationTable (decl : FunctionDecl) {item : ValidationTable}
    (h : (Node.validationTable item).Guarded) (hrows : Node.RowsFit item.header item.rows) :
    Keeps given (validationTable env decl item) fun _ => (Node.validationTable item).UsesValues := by
  refine keeps_inScope ((keeps_declareMembers env decl .parameters).bind fun _ => ?_)
  refine (keeps_declareMembers env decl .results).bind fun _ => ?_
  refine (keeps_mapM fun column _ => keeps_validationHead env column).bind fun columnTypes => ?_
  refine (keeps_forM fun cells hcells => keeps_row hcolumns
    (Node.Everywhere.part h (List.mem_map_of_mem hcells)) (fun hgiven => ?_)
    fun hgiven => hgiven.2.2).weaken fun _ _ hall => ?_
  · obtain ⟨columns, hheader, hlength⟩ := hrows cells hcells
    rw [hgiven.2.1, hheader]
    exact hlength
  · exact Node.everyValue_of_children rfl (List.forall_mem_map.2 hall)

theorem keeps_functionBlocks (decl : FunctionDecl) {tests : ScenarioDecl}
    (h : (Node.scenario tests).Guarded)
    (hrows : ∀ item ∈ tests.validationTable, Node.RowsFit item.header item.rows) :
    Keeps given (functionBlocks env decl tests) fun _ =>
      ∀ block ∈ tests.blocks, block.UsesValues := by
  have hblock (block : Node) (hmem : block ∈ tests.blocks) : block.Guarded :=
    Node.Everywhere.part h (ScenarioDecl.mem_children_of_mem_blocks hmem)
  unfold ScenarioDecl.blocks at hblock ⊢
  simp only [List.forall_mem_append, Node.forall_mem_option] at hblock ⊢
  obtain ⟨⟨hparameters, hresults⟩, hvalidation⟩ := hblock
  refine (keeps_forM_option fun block hmem =>
    keeps_assignments hcolumns decl (hparameters block hmem)).bind fun _ => ?_
  refine (keeps_forM_option fun block hmem =>
    keeps_assignments hcolumns decl (hresults block hmem)).bind fun _ => ?_
  refine (keeps_forM_option fun item hmem =>
    keeps_validationTable hcolumns decl (hvalidation item hmem) (hrows item hmem)).weaken ?_
  exact fun hgiven _ hvalidation => ⟨⟨hgiven.1.2, hgiven.2⟩, hvalidation⟩

theorem keeps_testedFunction {tests : ScenarioDecl} (h : (Node.scenario tests).Guarded) :
    Keeps given (testedFunction env tests.function) fun decl? =>
      (tests.function.isNone = false → decl?.isSome = true) ∧
        ∀ inner, tests.function = some (.inline inner) → (Node.function inner).UsesValues := by
  unfold testedFunction
  split
  · next hnone =>
    refine .pure fun _ => ⟨fun hsome => ?_, fun inner hinner => ?_⟩
    · simp [hnone] at hsome
    · cases hnone.symm.trans hinner
  · next inner hfunction =>
    refine (keeps_function hcolumns (Node.Everywhere.tested h _ hfunction)).bind fun _ => .pure ?_
    rintro ⟨_, huses⟩
    refine ⟨fun _ => rfl, fun other hother => ?_⟩
    cases hfunction.symm.trans hother
    exact huses
  · next hfunction =>
    refine keeps_reportIf (.pure fun hgiven => ⟨fun _ => ?_, fun inner hinner => ?_⟩)
    · simpa [Option.isSome_iff_ne_none] using hgiven.2
    · cases hfunction.symm.trans hinner

theorem keeps_scenario {tests : ScenarioDecl} (h : (Node.scenario tests).Guarded)
    (huntested : ∀ block ∈ (Declaration.scenario tests).untested,
      block.Everywhere fun node => node.values = [])
    (hrows : ∀ item ∈ tests.validationTable, Node.RowsFit item.header item.rows) :
    Keeps given (scenario env tests) fun _ => (Node.scenario tests).UsesValues := by
  refine (keeps_testedFunction hcolumns h).bind fun decl? => ?_
  refine (keeps_forM_option fun inner _ => keeps_enumeration env inner).bind fun _ => ?_
  refine (keeps_forM_option fun inner hinner =>
    keeps_table hcolumns (Node.Everywhere.scenarioTable h inner hinner)).bind fun _ => ?_
  apply keeps_reportIf
  have hwhole {function? : Option FunctionDecl} {before after subject : Prop}
      (hgiven : (((before ∧ (tests.function.isNone = false → function?.isSome = true) ∧
        ∀ inner, tests.function = some (.inline inner) → (Node.function inner).UsesValues) ∧ after) ∧
        ∀ inner ∈ tests.table, (Node.table inner).UsesValues) ∧ subject)
      (hblocks : ∀ block ∈ tests.blocks, block.UsesValues) : (Node.scenario tests).UsesValues := by
    obtain ⟨⟨⟨⟨_, _, hfunction⟩, _⟩, htable⟩, _⟩ := hgiven
    exact Node.everyValue_scenario hfunction htable hblocks
  cases decl? with
  | some decl =>
    exact (keeps_functionBlocks hcolumns decl h hrows).weaken fun hgiven _ => hwhole hgiven
  | none =>
    refine .pure fun hgiven => hwhole hgiven fun block hblock => ?_
    have hnone : tests.function.isNone = true := by
      by_contra hsome
      simpa using hgiven.1.1.1.2.1 (eq_false_of_ne_true hsome)
    have hmem : block ∈ (Declaration.scenario tests).untested := by
      rwa [Declaration.untested, if_pos hnone]
    refine fun node hnode value hvalue => ?_
    rw [huntested block hmem node hnode] at hvalue
    cases hvalue

/-! ### Roots -/

theorem keeps_root {item : Declaration} (h : (Node.ofDeclaration item).Guarded)
    (hcovered : item.Covered) (hwell : (Node.ofDeclaration item).AllWellFormed) :
    Keeps given (root env item) fun _ => (Node.ofDeclaration item).UsesValues := by
  cases item with
  | function decl => exact keeps_function hcolumns h
  | enumeration decl =>
    exact (keeps_enumeration env decl).weaken fun _ _ _ => Node.everyValue_enumeration decl
  | table decl => exact keeps_table hcolumns h
  | record decl => exact keeps_record hcolumns h
  | scenario decl =>
    refine keeps_scenario hcolumns h hcovered.untested fun item hitem => ?_
    have hvalidation := (Node.allWellFormed_scenario decl).1 hwell
    exact (Node.Everywhere.self (hvalidation.2.2.2.2.2.2 item hitem))

end DecisionLang.Check
