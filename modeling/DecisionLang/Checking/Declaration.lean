import DecisionLang.Checking.Expression
import DecisionLang.Text.Lines

/-!
# Checking declarations

A function has one scope for its parameters, its results and the lines of its code; every row of a
table has one, and so has a record type. The blocks of a scenario name the parameters and results
of the function under test, each block in a scope of its own.
-/

namespace DecisionLang.Check

/-- A typed name of a block. -/
def definition (env : TypeEnv) (origin : Origin) (item : Definition) : Check Unit :=
  declaration env ⟨item.id, item.name, item.type, item.reference⟩ origin
    (item.default.map (partOf env))

def function (env : TypeEnv) (decl : FunctionDecl) : Check Unit :=
  inScope do
    decl.parameterDefinitions.forM (definition env .parameters)
    decl.resultDefinitions.forM (definition env .results)
    decl.expressions.forM fun line => discard (expression env line)

/-- Members whose numbers earlier members have. -/
def repeatedValues (seen : List Int) : List EnumMember → List (Int × Reference)
  | [] => []
  | member :: members =>
    match member.value with
    | none => repeatedValues seen members
    | some value =>
      if seen.contains value then (value, member.reference) :: repeatedValues seen members
      else repeatedValues (value :: seen) members

def enumeration (decl : EnumDecl) : Check Unit := do
  if decl.members.isEmpty then fail (.emptyEnum decl.name) decl.reference
  (repeatedValues [] decl.members).forM fun (value, reference) =>
    report (.duplicateEnumValue value) reference

/-- Type of a column, which must be one. -/
def columnHead (env : TypeEnv) (item : Column) : Check (Option Ty) := do
  let type? := env.resolve? item.type
  if type?.isNone then report (.unknownType item.type.text) item.reference
  return type?

/-- The values of a row against the types of their columns, as far as those are known. -/
def row (env : TypeEnv) (columnTypes : List (Option Ty)) (item : TableRow) : Check Unit :=
  (item.values.zip columnTypes).forM fun (value, type?) =>
    (partOf env value).checkStored env type?

def table (env : TypeEnv) (decl : TableDecl) : Check Unit := do
  match decl.header with
  | none => fail (.missingHeader decl.name) decl.reference
  | some header =>
    let columnTypes ← header.columns.mapM (columnHead env)
    decl.rows.forM fun item => inScope (row env columnTypes item)

/-- Whether a member of a record type is directly of that type. -/
def isSelfContaining (decl : RecordDecl) (member : Definition) : Bool :=
  member.type == .named (NamePath.ofName decl.name)

def recordMember (env : TypeEnv) (decl : RecordDecl) (member : Definition) : Check Unit :=
  if isSelfContaining decl member then
    report (.selfContaining member.name member.type.text) member.reference
  else definition env .record member

def record (env : TypeEnv) (decl : RecordDecl) : Check Unit :=
  inScope (decl.members.forM (recordMember env decl))

/-! ### Scenarios -/

def roleOrigin : BlockRole → Origin
  | .parameters => .parameters
  | .results => .results

def roleDefinitions (decl : FunctionDecl) : BlockRole → List Definition
  | .parameters => decl.parameterDefinitions
  | .results => decl.resultDefinitions

/-- Declares the parameters or results of the function under test, as far as they have types. -/
def declareMembers (env : TypeEnv) (decl : FunctionDecl) (role : BlockRole) : Check Unit :=
  let types := env.functionMembers decl role
  (roleDefinitions decl role).forM fun item =>
    match types.first? item.name with
    | some type => discard (declare ⟨item.name, type, roleOrigin role, item.reference⟩)
    | none => return ()

def assignments (env : TypeEnv) (decl : FunctionDecl) (role : BlockRole)
    (block : AssignmentBlock) : Check Unit :=
  inScope do
    declareMembers env decl role
    block.assignments.forM fun line => discard (expression env line)

/-- Type of a validation column, which must name a parameter or result or a member of one. -/
def validationHead (env : TypeEnv) (item : ValidationColumn) : Check (Option Ty) := do
  let resolved? ← resolve? env (NamePath.ofParts (Text.dotted item.name))
  if resolved?.isNone then report (.unknownSubject item.name) item.reference
  return resolved?.map ResolvedVariable.type

def validationTable (env : TypeEnv) (decl : FunctionDecl) (item : ValidationTable) : Check Unit :=
  inScope do
    declareMembers env decl .parameters
    declareMembers env decl .results
    let columnTypes ← (item.header.getD []).mapM (validationHead env)
    item.rows.forM (row env columnTypes)

/-- The function under test, if there is one. One that is written out is checked here, one that is
named where it is declared. -/
def testedFunction (env : TypeEnv) : Option TestedFunction → Check (Option FunctionDecl)
  | none => return none
  | some (.inline decl) => do
    function env decl
    return some decl
  | some (.named name reference) => do
    let decl? := env.document.function? name
    if decl?.isNone then report (.unknownFunction name) reference
    return decl?

/-- The blocks of a scenario that are about the function under test. -/
def functionBlocks (env : TypeEnv) (decl : FunctionDecl) (scenario : ScenarioDecl) :
    Check Unit := do
  scenario.parameters.forM (assignments env decl .parameters)
  scenario.results.forM (assignments env decl .results)
  scenario.validationTable.forM (validationTable env decl)

def scenario (env : TypeEnv) (decl : ScenarioDecl) : Check Unit := do
  let function? ← testedFunction env decl.function
  decl.enumeration.forM enumeration
  decl.table.forM (table env)
  if decl.function.isNone && decl.enumeration.isNone && decl.table.isNone then
    report (.missingSubject decl.name) decl.reference
  if let some function := function? then functionBlocks env function decl

/-! ### Roots -/

def root (env : TypeEnv) : Declaration → Check Unit
  | .function decl => function env decl
  | .enumeration decl => enumeration decl
  | .table decl => table env decl
  | .record decl => record env decl
  | .scenario decl => scenario env decl

/-- The root declarations with the given indices, in that order. -/
def roots (env : TypeEnv) (order : List Nat) : Check Unit :=
  (order.filterMap (env.document.declarations[·]?)).forM fun item =>
    ownedBy item.name (root env item)

end DecisionLang.Check

namespace DecisionLang

/-- Checks the root declarations in an order, after what has been logged before. -/
def TypeEnv.check (env : TypeEnv) (order : List Nat) (log : Log) : Findings × Log :=
  let state := ((Check.roots env order).run { log }).2
  (state.findings, state.log)

end DecisionLang
