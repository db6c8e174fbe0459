import DecisionLang.Checking.Findings
import DecisionLang.Tree.Walk
import DecisionLang.Typing.Assignable
import Mathlib.Data.List.Forall2

/-!
# Findings as typing derivations

The types that are recorded for expressions form a derivation if the type of each expression
follows from those of its parts: `Expr.HasType` has one rule for each kind of expression and
mentions the findings alone. What is recorded for definitions and for the cells of tables is read
the same way.
-/

namespace DecisionLang

namespace Expr

def caseValue? : Expr → Option Expr
  | case _ value _ => value
  | _ => none

end Expr

namespace TypeEnv

/-- Every column of a table that is declared has a type. -/
def ColumnsResolve (env : TypeEnv) : Prop :=
  ∀ decl, .table decl ∈ env.document.declarations → ∀ column ∈ decl.columns,
    (env.resolve? column.type).isSome

/-- A column, named with its table, has a type. -/
def ColumnHas (env : TypeEnv) (table : TableDecl) (name : ColumnName) (type : Ty) : Prop :=
  name.table = table.name ∧
    ∃ column, table.column? name.column = some column ∧ env.resolve? column.type = some type

end TypeEnv

namespace Findings

variable (env : TypeEnv) (findings : Findings)

def type? (item : Expr) : Option Ty := findings.types.find? item.id

/-- An expression has a type that can be stored where another one is wanted. -/
def Stores (wanted : Ty) (value : Expr) : Prop :=
  ∃ offered, findings.type? value = some offered ∧ env.assignable wanted offered = true

/-- A value that is searched for has a type that can be stored in the column. -/
def Searches (table : TableDecl) (column : ColumnName) (value : Expr) : Prop :=
  ∃ wanted, env.ColumnHas table column wanted ∧ findings.Stores env wanted value

/-- A variable has a type, the written one if there is one, and its default value goes with it. -/
def Declares (id : Nat) (written : WrittenType) (default : Option Expr) : Prop :=
  ∃ declared, findings.definitions.find? id = some declared ∧
    (∀ wanted, env.resolve? written = some wanted → declared = wanted) ∧
    ∀ value ∈ default, findings.Stores env declared value

/-- A path stands for a variable, or starts at a root declaration. -/
def Names (id : Nat) (path : NamePath) (type : Ty) : Prop :=
  (∃ resolved, findings.resolved.find? id = some resolved ∧ resolved.path = path ∧
    resolved.type = type) ∨
  ∃ root, env.rootType? path.root = some root ∧ env.follow? root path.members = some type

end Findings

namespace Expr

open Findings

/-- The rule for each kind of expression, given the types that are recorded for its parts. -/
inductive HasType (env : TypeEnv) (findings : Findings) : Expr → Ty → Prop
  | literal {mark value} :
      HasType env findings (.literal mark value) (.primitive value.primitive)
  | name {mark word type} (hnames : findings.Names env mark.id (NamePath.ofName word) type) :
      HasType env findings (.name mark word) type
  | path {mark names type} (hnames : findings.Names env mark.id names type) :
      HasType env findings (.path mark names) type
  | binary {mark left operator right leftType rightType type}
      (hleft : findings.type? left = some leftType)
      (hright : findings.type? right = some rightType)
      (hrule : env.rules.result? operator leftType rightType = some type) :
      HasType env findings (.binary mark left operator right) type
  | assign {mark target value wanted} (htarget : findings.type? target = some wanted)
      (hvalue : findings.Stores env wanted value) :
      HasType env findings (.assign mark target value) .void
  | declare {mark type name default} (hdeclares : findings.Declares env mark.id type default) :
      HasType env findings (.declare mark type name default) .void
  | group {mark inner type} (hinner : findings.type? inner = some type) :
      HasType env findings (.group mark inner) type
  | indexed {mark table index name} (hindex : findings.type? index = some .number)
      (htable : env.rootType? table = some (.table name)) :
      HasType env findings (.indexed mark table index) (.generated name .row)
  | make {mark making type typeReference object}
      (htype : env.resolvePath? type = some object) (hobject : object.isObject = true) :
      HasType env findings (.make mark making type typeReference) object
  | extract {mark inner object} (hinner : findings.type? inner = some object)
      (hobject : object.isObject = true) : HasType env findings (.extract mark inner) .void
  | lookUp {mark function table tableReference discriminator value discriminatorColumn
      searchColumn resultColumn decl type}
      (htable : env.document.table? table = some decl)
      (hvalue : findings.Searches env decl searchColumn value)
      (hdiscriminator : ∀ item ∈ discriminator, ∃ column ∈ discriminatorColumn,
        findings.Searches env decl column item)
      (hresult : resultColumn.elim (type = .generated decl.name .row)
        (env.ColumnHas decl · type)) :
      HasType env findings (.lookUp mark function table tableReference discriminator value
        discriminatorColumn searchColumn resultColumn) type
  | declaredCall {mark function arguments} (hdeclared : (env.document.function? function).isSome)
      (harguments : arguments = [] ∨ ∃ argument, arguments = [argument] ∧
        findings.Stores env (.generated function .parameters) argument) :
      HasType env findings (.call mark function arguments) (.generated function .results)
  | libraryCall {mark function arguments library}
      (hdeclared : (env.document.function? function).isSome = false)
      (hlibrary : LibraryFunction.ofSpelling? function = some library)
      (harguments : List.Forall₂ (fun argument kind =>
        findings.type? argument = some (.primitive kind)) arguments library.parameters) :
      HasType env findings (.call mark function arguments) (.primitive library.result)
  | ifThen {mark condition body alternatives}
      (hcondition : findings.type? condition = some .boolean) :
      HasType env findings (.ifThen mark condition body alternatives) .void
  | elseIf {mark condition body} (hcondition : findings.type? condition = some .boolean) :
      HasType env findings (.elseIf mark condition body) .void
  | otherwise {mark body} : HasType env findings (.otherwise mark body) .void
  | switch {mark subject cases type} (hsubject : findings.type? subject = some type)
      (hcases : ∀ branch ∈ cases, ∀ value ∈ branch.caseValue?,
        findings.type? value = some type) :
      HasType env findings (.switch mark subject cases) .void
  | case {mark value body} : HasType env findings (.case mark value body) .void
  | spread {mark function} :
      HasType env findings (.spread mark) (.generated function .parameters)
  | spreadAssign {mark invoked results} (hinvoked : findings.type? invoked = some results)
      (hobject : results.isObject = true) :
      HasType env findings (.spreadAssign mark invoked) .void

/-- The recorded type of an expression follows from those of its parts. -/
def Typed (env : TypeEnv) (findings : Findings) (whole : Expr) : Prop :=
  ∃ type, findings.type? whole = some type ∧ whole.HasType env findings type

end Expr

def TableRow.Typed (env : TypeEnv) (findings : Findings) (columns : List Column) (row : TableRow) :
    Prop :=
  List.Forall₂ (fun value column =>
    ∃ wanted, env.resolve? column.type = some wanted ∧ findings.Stores env wanted value)
    row.values columns

/-- What is recorded for a node, if anything is, follows from what is recorded for its parts. -/
def Node.Typed (env : TypeEnv) (findings : Findings) : Node → Prop
  | .expression item => item.Typed env findings
  | .definition item => findings.Declares env item.id item.type item.default
  | .table decl => ∀ row ∈ decl.rows, row.Typed env findings decl.columns
  | _ => True

/-! ### What is checked -/

namespace Expr

/-- A branch of a switch is checked along with its value. -/
def branchParts (branch : Expr) : List Expr :=
  match branch with
  | case _ value _ => value.toList ++ [branch]
  | _ => []

/-- Parts that are checked along with an expression. The value of a case is none of them: it is
checked by the switch around it. -/
def checkedParts : Expr → List Expr
  | switch _ subject cases => subject :: cases.flatMap branchParts
  | case _ _ body => body
  | other => other.children

theorem sizeOf_lt_of_mem_branchParts {part branch : Expr} (h : part ∈ branch.branchParts) :
    sizeOf part < sizeOf branch + 1 := by
  unfold branchParts at h
  split at h
  · next mark value body =>
    rcases List.mem_append.1 h with h | h
    · have hchild : part ∈ (case mark value body).children := List.mem_append_left body h
      have := sizeOf_lt_of_mem_children hchild
      omega
    · obtain rfl := List.mem_singleton.1 h
      omega
  · cases h

theorem sizeOf_lt_of_mem_checkedParts {part whole : Expr} (h : part ∈ whole.checkedParts) :
    sizeOf part < sizeOf whole := by
  unfold checkedParts at h
  split at h
  · next mark subject cases =>
    rcases List.mem_cons.1 h with rfl | h
    · have hchild : part ∈ (switch mark part cases).children := List.mem_cons_self
      exact sizeOf_lt_of_mem_children hchild
    · obtain ⟨branch, hbranch, hpart⟩ := List.mem_flatMap.1 h
      have := sizeOf_lt_of_mem_branchParts hpart
      have hchild : branch ∈ (switch mark subject cases).children :=
        List.mem_cons_of_mem subject hbranch
      have := sizeOf_lt_of_mem_children hchild
      omega
  · next mark value body =>
    have hchild : part ∈ (case mark value body).children := List.mem_append_right value.toList h
    exact sizeOf_lt_of_mem_children hchild
  · exact sizeOf_lt_of_mem_children h

/-- An expression and everything inside it that is checked along with it. -/
def checked (whole : Expr) : List Expr :=
  whole :: whole.checkedParts.attach.flatMap fun ⟨part, _⟩ => checked part
termination_by sizeOf whole
decreasing_by exact sizeOf_lt_of_mem_checkedParts ‹_›

theorem checked_eq (whole : Expr) :
    whole.checked = whole :: whole.checkedParts.flatMap checked := by
  rw [checked]
  simp

end Expr

end DecisionLang
