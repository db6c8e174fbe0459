import DecisionLang.Proofs.Checking.Members
import DecisionLang.Proofs.Reading.Headers

/-!
# Types of columns

A column is found through its table, as a member of a row, and as the result column of a table
function, whose type is found when it is checked and when a default value is listed. In a document
that is checked without errors, all of these give the type that the written type of the column
stands for; only the table itself gives its own members first, which hide columns of the same
names. Main statement: `Dialect.Compiles.columnAgrees`.
-/

namespace DecisionLang

namespace Expr

/-- The table that a table function searches. -/
def searched? : Expr → Option String
  | lookUp _ _ table _ _ _ _ _ _ => some table
  | _ => none

def resultColumn? : Expr → Option ColumnName
  | lookUp _ _ _ _ _ _ _ _ resultColumn => resultColumn
  | _ => none

/-- A table function gives a value of a column, named with its table. -/
def Gives (table column : String) (whole : Expr) : Prop :=
  ∃ name ∈ whole.resultColumn?, name.table = table ∧ name.column = column

theorem Gives.exists_lookUp {table column : String} {whole : Expr} (h : whole.Gives table column) :
    ∃ mark function searched tableReference discriminator value discriminatorColumn searchColumn
      name, whole = .lookUp mark function searched tableReference discriminator value
        discriminatorColumn searchColumn (some name) ∧ name.table = table ∧
        name.column = column := by
  obtain ⟨name, hname, hown⟩ := h
  cases whole with
  | lookUp =>
    cases hname
    exact ⟨_, _, _, _, _, _, _, _, name, rfl, hown⟩
  | _ => cases hname

end Expr

/-- The type of a member of a table, where the column of this name has a type: each table has two
members of its own, which come first. -/
def TableDecl.accessed (decl : TableDecl) (member : String) (column : Ty) : Ty :=
  if member = GeneratedPart.row.member then .generated decl.name .row
  else if member = countMember then .number
  else column

/-- The parts of a root declaration whose expressions are checked: units, and the blocks of a
scenario that has a function under test. -/
def Declaration.examined (item : Declaration) : List Node :=
  item.units ++
    match item with
    | .scenario tests => if tests.function.isSome then tests.blocks else []
    | _ => []

/-- All ways to a column of a table lead to one type. -/
structure TypeEnv.ColumnAgrees (env : TypeEnv) (findings : Findings) (decl : TableDecl)
    (column : Column) (type : Ty) : Prop where
  written : env.resolve? column.type = some type
  root : env.rootType? decl.name = some (.table decl.name)
  access : env.member? (.table decl.name) column.name = some (decl.accessed column.name type)
  row : env.member? (.generated decl.name .row) column.name = some type
  listed : ∀ other, (column.name, other) ∈ env.members (.generated decl.name .row) ↔ other = type
  default : ∀ whole visible, whole.searched? = some decl.name → whole.Gives decl.name column.name →
    env.defaultType? visible whole = some type
  checked : ∀ whole state, whole.searched? = some decl.name → whole.Gives decl.name column.name →
    ((Check.expression env whole).run state).1 = some type
  /-- No matter which table is searched. -/
  recorded : ∀ item ∈ env.document.declarations, ∀ part ∈ item.examined, ∀ whole,
    Node.expression whole ∈ part.checked → whole.Gives decl.name column.name →
      findings.type? whole = some type

namespace Check

variable {env : TypeEnv}

theorem returns_ownColumn {table : TableDecl} {name : ColumnName} (h : name.table = table.name) :
    Returns (· = (table.column? name.column).bind fun column => env.resolve? column.type)
      (column env table name) := by
  unfold column
  rw [if_neg (not_not_intro h)]
  cases table.column? name.column with
  | none => exact .after fun _ => .pure rfl
  | some found => exact .pure rfl

theorem returns_expression {P : Option Ty → Prop} {whole : Expr}
    (h : Returns P (derive env whole fun inner _ => expression env inner)) :
    Returns P (expression env whole) := by
  intro state
  rw [expression_fst]
  exact h state

theorem returns_gives {whole : Expr} {table : TableDecl} {column : String}
    (htable : env.document.table? table.name = some table)
    (hsearched : whole.searched? = some table.name) (hgives : whole.Gives table.name column) :
    Returns (· = (table.column? column).bind fun found => env.resolve? found.type)
      (expression env whole) := by
  obtain ⟨_, _, _, _, _, _, _, _, name, rfl, hname, rfl⟩ := hgives.exists_lookUp
  cases hsearched
  apply returns_expression
  rw [derive]
  exact returns_lookUp_of_table htable (returns_lookUpColumns (returns_ownColumn hname))

end Check

namespace TypeEnv

variable {env : TypeEnv} {decl : TableDecl} {column : Column}

theorem defaultType?_of_gives {whole : Expr} {name : String} (visible : Typed)
    (hsearched : whole.searched? = some decl.name) (hgives : whole.Gives decl.name name) :
    env.defaultType? visible whole = env.columnType? decl.name name := by
  obtain ⟨_, _, _, _, _, _, _, _, result, rfl, _, rfl⟩ := hgives.exists_lookUp
  cases hsearched
  rfl

/-- What is recorded for a table function follows from the column, whichever table it searches. -/
theorem type?_of_gives {findings : Findings} {whole : Expr} {name : String}
    (htable : env.document.table? decl.name = some decl) (htyped : whole.Typed env findings)
    (hgives : whole.Gives decl.name name) :
    findings.type? whole = (decl.column? name).bind fun found => env.resolve? found.type := by
  obtain ⟨_, _, searched, _, _, _, _, _, result, rfl, hresult, rfl⟩ := hgives.exists_lookUp
  obtain ⟨type, hfound, htype⟩ := htyped
  cases htype with
  | @lookUp _ _ _ _ _ _ _ _ _ other _ hother _ _ hcolumn =>
    obtain ⟨howner, found, hcolumn, hresolve⟩ := hcolumn
    have hname : decl.name = searched := by
      rw [← hresult, howner, (Document.mem_declarations_of_table? hother).2]
    rw [← hname, htable] at hother
    cases hother
    rw [hfound, hcolumn]
    exact hresolve.symm

theorem mem_columnTypes {name : String} {type : Ty} :
    (name, type) ∈ env.columnTypes decl ↔
      ∃ column ∈ decl.columns, env.resolve? column.type = some type ∧ column.name = name := by
  simp [columnTypes]

theorem mem_columnTypes_iff (hdistinct : decl.DistinctColumns) (hcolumn : column ∈ decl.columns)
    {type : Ty} (htype : env.resolve? column.type = some type) (other : Ty) :
    (column.name, other) ∈ env.columnTypes decl ↔ other = type := by
  rw [mem_columnTypes]
  constructor
  · rintro ⟨found, hfound, hother, hname⟩
    rw [List.inj_on_of_nodup_map hdistinct hfound hcolumn hname, htype] at hother
    exact (Option.some.inj hother).symm
  · rintro rfl
    exact ⟨column, hcolumn, htype, rfl⟩

theorem nodup_columnTypes (hdistinct : decl.DistinctColumns) :
    ((env.columnTypes decl).map Prod.fst).Nodup := by
  have hlisted : ((env.columnTypes decl).map Prod.fst).Sublist (decl.columns.map Column.name) := by
    unfold columnTypes
    induction decl.columns with
    | nil => exact .slnil
    | cons column columns ih =>
      cases hresolve : env.resolve? column.type with
      | none => simpa [hresolve] using ih.cons column.name
      | some type => simpa [hresolve] using ih
  exact hdistinct.sublist hlisted

/-- In a document with distinct names, of declarations and of columns, all ways to a column that has
a type lead to it. -/
theorem columnAgrees_of_typed {findings : Findings} {type : Ty}
    (hnames : env.document.names.Nodup) (hdecl : .table decl ∈ env.document.declarations)
    (hdistinct : decl.DistinctColumns) (hcolumn : column ∈ decl.columns)
    (htype : env.resolve? column.type = some type)
    (htyped : ∀ item ∈ env.document.declarations, ∀ part ∈ item.examined, ∀ whole,
      Node.expression whole ∈ part.checked → whole.Typed env findings) :
    env.ColumnAgrees findings decl column type := by
  have htable := Document.table?_of_nodup hnames hdecl
  have hfound := hdistinct.column?_eq hcolumn
  have hmembers := members_row hnames hdecl
  have hlisted := mem_columnTypes_iff hdistinct hcolumn htype
  have hown : (decl.column? column.name).bind (fun found => env.resolve? found.type) =
      some type := by rw [hfound, Option.bind_some, htype]
  have hcolumnType : env.columnType? decl.name column.name = some type := by
    unfold columnType?
    rw [htable]
    exact hown
  constructor
  case written => exact htype
  case root =>
    have hroot : env.document.find? decl.name = some (.table decl) :=
      DependencyGraph.find?_of_nodup hnames hdecl
    unfold rootType?
    rw [hroot]
  case access =>
    unfold member? memberFrom? TableDecl.accessed
    dsimp only
    rw [htable, Option.bind_some, hcolumnType]
    split_ifs <;> rfl
  case row =>
    change (env.members (.generated decl.name .row)).first? column.name = some type
    rw [hmembers]
    exact Typed.first?_of_mem (nodup_columnTypes hdistinct) ((hlisted type).2 rfl)
  case listed =>
    rw [hmembers]
    exact hlisted
  case default =>
    intro whole visible hsearched hgives
    rw [defaultType?_of_gives visible hsearched hgives, hcolumnType]
  case checked =>
    intro whole state hsearched hgives
    exact (Check.returns_gives htable hsearched hgives state).trans hown
  case recorded =>
    intro item hitem part hpart whole hwhole hgives
    rw [type?_of_gives htable (htyped item hitem part hpart whole hwhole) hgives, hown]

/-! ### Checked documents -/

variable {order : List Nat} {log : Log}

theorem typed_check_of_mem_examined
    (hperm : order.Perm (List.range env.document.declarations.length))
    (hnumbers : env.document.numbers.Nodup) (herrors : (env.check order log).2.hasErrors = false)
    {item : Declaration} (hitem : item ∈ env.document.declarations)
    (hwell : (Node.ofDeclaration item).AllWellFormed) {part : Node} (hpart : part ∈ item.examined)
    {whole : Expr} (hwhole : .expression whole ∈ part.checked) :
    whole.Typed env (env.check order log).1 := by
  have hcolumns := columnsResolve_check hperm hnumbers herrors
  have hbelow := Node.mem_walk_of_mem_checked hwhole
  rcases List.mem_append.1 hpart with hunit | hblock
  · have hregular := hwell.allRegular.below (Declaration.mem_walk_of_mem_units hunit)
    have hroot := rootTyped_check hperm hnumbers herrors item hitem
    exact hroot.2 hcolumns part hunit hregular.self _ hwhole (hregular _ hbelow)
  · cases item with
    | scenario tests =>
      by_cases hsome : tests.function.isSome = true
      · replace hblock : part ∈ tests.blocks := by simpa [hsome] using hblock
        have hblocks := post_check Check.sound_blocks hperm hnumbers herrors _ hitem tests rfl
          hsome hcolumns
        have hpart : part.AllWellFormed :=
          Node.Everywhere.part hwell (ScenarioDecl.mem_children_of_mem_blocks hblock)
        exact hblocks part hblock hpart.self _ hwhole (hpart.allRegular _ hbelow)
      · simp [hsome] at hblock
    | _ => cases hblock

end TypeEnv

theorem Dialect.Compiles.distinctColumns {dialect : Dialect} {options : CompileOptions}
    {compiled : Compiled} (h : dialect.Compiles options compiled)
    (herrors : compiled.log.hasErrors = false) {decl : TableDecl}
    (hdecl : .table decl ∈ compiled.document.declarations) : decl.DistinctColumns := by
  obtain ⟨progress, hreads, rfl, _⟩ := h.exists_reads
  have hread := Compiled.hasErrors_read herrors
  rcases hreads.distinctColumns with hdistinct | hread'
  · exact hdistinct decl (List.mem_flatMap.2 ⟨_, hdecl, List.mem_singleton_self decl⟩)
  · rw [hread] at hread'
    cases hread'

/-- In a document that is checked without errors, every column of a table has a type, and all ways
to the column lead to it, except that the table itself gives its own members first. -/
theorem Dialect.Compiles.columnAgrees {dialect : Dialect} {options : CompileOptions}
    {compiled : Compiled} (h : dialect.Compiles options compiled) (hchecks : options.checks = true)
    (herrors : compiled.log.errors = []) {decl : TableDecl}
    (hdecl : .table decl ∈ compiled.document.declarations) {column : Column}
    (hcolumn : column ∈ decl.columns) :
    ∃ type, TypeEnv.ColumnAgrees ⟨compiled.document, dialect.rules⟩ compiled.findings decl column
      type := by
  obtain ⟨hnames, hnumbers, _, order, log, hperm, _, hcheck, hlog⟩ :=
    h.exists_check hchecks herrors
  let env : TypeEnv := ⟨compiled.document, dialect.rules⟩
  have hfindings : (env.check order log).1 = compiled.findings := congrArg Prod.fst hcheck
  have herrors : (env.check order log).2.hasErrors = false :=
    (congrArg (fun done => done.2.hasErrors) hcheck).trans hlog
  have hsome := env.columnsResolve_check hperm hnumbers herrors decl hdecl column hcolumn
  obtain ⟨type, htype⟩ := Option.isSome_iff_exists.1 hsome
  have hdistinct := h.distinctColumns hlog hdecl
  use type
  apply env.columnAgrees_of_typed hnames hdecl hdistinct hcolumn htype
  rw [← hfindings]
  intro item hitem part hpart whole hwhole
  exact env.typed_check_of_mem_examined hperm hnumbers herrors hitem (h.allWellFormed item hitem)
    hpart hwhole

namespace Dialect

/-- A table with a column that is looked up in a default value. -/
def lookedUpRate : List String :=
  ["enum Kind", "  Low = 1", "table Rates", "  | Kind Level | number Rate |", "  | Kind.Low | 2 |",
    "function Pay", "  parameters",
    "    var Rate = lookUp(Rates, Kind.Low, Rates.Level, Rates.Rate)"]

theorem columnAgrees_lookedUpRate :
    ∃ compiled decl column, ({} : Dialect).compileLines {} "rates" lookedUpRate = .ok compiled ∧
      ({} : CompileOptions).checks = true ∧ compiled.log.errors = [] ∧
      .table decl ∈ compiled.document.declarations ∧ column ∈ decl.columns ∧
      ∃ type, TypeEnv.ColumnAgrees ⟨compiled.document, ({} : Dialect).rules⟩ compiled.findings decl
        column type := by
  have hok : (({} : Dialect).compileLines {} "rates" lookedUpRate).toOption.any (fun compiled =>
      compiled.log.errors.isEmpty && (compiled.document.table? "Rates").any fun decl =>
        (decl.column? "Rate").isSome) = true := by decide +kernel
  obtain ⟨compiled, hcompile, hall⟩ := (Option.any_eq_true _ _).1 hok
  have hcompile := compileLines_eq_ok hcompile
  simp only [Bool.and_eq_true, List.isEmpty_iff, Option.any_eq_true] at hall
  obtain ⟨herrors, decl, hfound, hcolumn⟩ := hall
  obtain ⟨column, hcolumn⟩ := Option.isSome_iff_exists.1 hcolumn
  have hdecl := (Document.mem_declarations_of_table? hfound).1
  have hcolumn := List.mem_of_find?_eq_some hcolumn
  exact ⟨compiled, decl, column, hcompile, rfl, herrors, hdecl, hcolumn,
    Compiles.columnAgrees (.lines _ _ hcompile) rfl herrors hdecl hcolumn⟩

/-- A table with columns that have the names of its own members. -/
def hiddenColumns : List String := ["table Rates", "  | number Row | string Count |"]

/-- The members of a row have the types of the columns, and those of the table have others. -/
theorem access_hiddenColumns :
    ∃ compiled decl, ({} : Dialect).compileLines {} "rates" hiddenColumns = .ok compiled ∧
      ({} : CompileOptions).checks = true ∧ compiled.log.errors = [] ∧
      .table decl ∈ compiled.document.declarations ∧
      let env : TypeEnv := ⟨compiled.document, ({} : Dialect).rules⟩
      decl.columns.map Column.name = ["Row", "Count"] ∧
        ∀ column ∈ decl.columns, ∃ type, env.resolve? column.type = some type ∧
          env.member? (.generated decl.name .row) column.name = some type ∧
          env.member? (.table decl.name) column.name ≠ some type := by
  have hok : (({} : Dialect).compileLines {} "rates" hiddenColumns).toOption.any (fun compiled =>
      compiled.log.errors.isEmpty && (compiled.document.table? "Rates").any fun decl =>
        decl.columns.map Column.name == ["Row", "Count"] && decl.columns.all fun column =>
          let env : TypeEnv := ⟨compiled.document, ({} : Dialect).rules⟩
          (env.resolve? column.type).any fun type =>
            env.member? (.generated decl.name .row) column.name == some type &&
              env.member? (.table decl.name) column.name != some type) = true := by decide +kernel
  obtain ⟨compiled, hcompile, hall⟩ := (Option.any_eq_true _ _).1 hok
  simp only [Bool.and_eq_true, List.isEmpty_iff, Option.any_eq_true, List.all_eq_true, beq_iff_eq,
    bne_iff_ne] at hall
  obtain ⟨herrors, decl, hfound, hnames, hcolumns⟩ := hall
  exact ⟨compiled, decl, compileLines_eq_ok hcompile, rfl, herrors,
    (Document.mem_declarations_of_table? hfound).1, hnames, hcolumns⟩

end Dialect

end DecisionLang
