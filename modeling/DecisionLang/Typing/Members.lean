import DecisionLang.Typing.TypeEnv
import DecisionLang.Visiting

/-!
# Members and default values

Object types have members; the types of members that are declared with `var` are those of their
default values, which can use members of other types in turn. So members are defined relative to
the members of the types used on the way, and a type that is met again on the way to its own
members has none there: `membersOutside`.

Default values are typed without a variable scope: a name stands for an earlier definition of the
same block, or, for results, for a parameter.
-/

namespace DecisionLang

/-- Names with their types, in order of declaration. -/
abbrev Typed := List (String × Ty)

namespace Typed

def first? (typed : Typed) (name : String) : Option Ty :=
  (typed.find? fun item => item.1 == name).map Prod.snd

def last? (typed : Typed) (name : String) : Option Ty := first? typed.reverse name

end Typed

namespace TypeEnv

/-- Type of a column of a table. -/
def columnType? (env : TypeEnv) (table column : String) : Option Ty := do
  let table ← env.document.table? table
  let column ← table.column? column
  env.resolve? column.type

/-- Type of a member of a value, given the members of object types. -/
def memberFrom? (env : TypeEnv) (members : Ty → Typed) (owner : Ty) (member : String) :
    Option Ty :=
  match owner with
  | .enumeration name =>
    (env.document.enumeration? name).bind fun decl =>
      if decl.hasMember member then some owner else none
  | .table name =>
    (env.document.table? name).bind fun _ =>
      if member = GeneratedPart.row.member then some (.generated name .row)
      else if member = countMember then some .number
      else env.columnType? name member
  | .function name => (functionPart? member).map (.generated name)
  | .record _ | .generated _ _ => (members owner).first? member
  | .primitive _ | .void => none

/-- Type of a member of a member, and so on. -/
def followFrom? (env : TypeEnv) (members : Ty → Typed) (owner : Ty) (path : List String) :
    Option Ty :=
  path.foldlM (env.memberFrom? members) owner

/-- Type of a default value, given the members of object types and the definitions before it. -/
def defaultFrom? (env : TypeEnv) (members : Ty → Typed) (visible : Typed) : Expr → Option Ty
  | .literal _ value => some (.primitive value.primitive)
  | .name _ word => visible.last? word
  | .path _ names => do
    let root ← (visible.last? names.root).or (env.rootType? names.root)
    env.followFrom? members root names.members
  | .group _ inner => env.defaultFrom? members visible inner
  | .binary _ left operator right => do
    let left ← env.defaultFrom? members visible left
    let right ← env.defaultFrom? members visible right
    env.rules.result? operator left right
  | .make _ _ type _ => (env.resolvePath? type).filter Ty.isObject
  | .lookUp _ _ table _ _ _ _ _ resultColumn =>
    match resultColumn with
    | some column => env.columnType? table column.column
    | none => some (.generated table .row)
  | .call _ function _ =>
    if (env.document.function? function).isSome then some (.generated function .results)
    else (LibraryFunction.ofSpelling? function).map fun library => .primitive library.result
  | _ => none

/-- Type of a definition: the written one, or the one of its default value. -/
def definitionFrom? (env : TypeEnv) (members : Ty → Typed) (visible : Typed)
    (definition : Definition) : Option Ty :=
  match definition.type with
  | .implicit => definition.default.bind (env.defaultFrom? members visible)
  | written => env.resolve? written

/-- Types of the definitions of a block. Those that have none are left out. -/
def definitionsFrom (env : TypeEnv) (members : Ty → Typed) (visible : Typed) :
    List Definition → Typed
  | [] => []
  | definition :: rest =>
    match env.definitionFrom? members visible definition with
    | some type =>
      (definition.name, type) ::
        env.definitionsFrom members (visible ++ [(definition.name, type)]) rest
    | none => env.definitionsFrom members visible rest

/-- Types of the parameters or results of a function. -/
def blockFrom (env : TypeEnv) (members : Ty → Typed) (decl : FunctionDecl) : BlockRole → Typed
  | .parameters => env.definitionsFrom members [] decl.parameterDefinitions
  | .results =>
    env.definitionsFrom members (env.definitionsFrom members [] decl.parameterDefinitions)
      decl.resultDefinitions

/-- Types of the columns of a table. Those that have none are left out. -/
def columnTypes (env : TypeEnv) (decl : TableDecl) : Typed :=
  decl.columns.filterMap fun column =>
    (env.resolve? column.type).map fun type => (column.name, type)

/-- Members of an object type, given those of the types used on the way. -/
def membersFrom (env : TypeEnv) (members : Ty → Typed) : Ty → Typed
  | .record name =>
    (env.document.record? name).elim [] fun decl => env.definitionsFrom members [] decl.members
  | .generated owner .row => (env.document.table? owner).elim [] env.columnTypes
  | .generated owner .parameters =>
    (env.document.function? owner).elim [] fun decl => env.blockFrom members decl .parameters
  | .generated owner .results =>
    (env.document.function? owner).elim [] fun decl => env.blockFrom members decl .results
  | _ => []

/-- Object types that a declaration brings along. -/
def objectTypesOf : Declaration → List Ty
  | .record decl => [.record decl.name]
  | .table decl => [.generated decl.name .row]
  | .function decl => [.generated decl.name .parameters, .generated decl.name .results]
  | _ => []

/-- All object types with members. -/
def objectTypes (env : TypeEnv) : List Ty := env.document.declarations.flatMap objectTypesOf

/-- Members of a type met on the way to the members of others, which do not count. -/
def membersOutside (env : TypeEnv) (visiting : List Ty) (object : Ty) : Typed :=
  if _ : object ∈ env.objectTypes ∧ object ∉ visiting then
    env.membersFrom (fun inner => env.membersOutside (object :: visiting) inner) object
  else []
termination_by unmet env.objectTypes visiting
decreasing_by exact unmet_cons_lt ‹_ ∧ _›.1 ‹_ ∧ _›.2

/-- Members of an object type. -/
def members (env : TypeEnv) (object : Ty) : Typed := env.membersOutside [] object

/-- Type of a member of a value. -/
def member? (env : TypeEnv) (owner : Ty) (member : String) : Option Ty :=
  env.memberFrom? env.members owner member

def follow? (env : TypeEnv) (owner : Ty) (path : List String) : Option Ty :=
  env.followFrom? env.members owner path

/-- Type of a default value after other definitions. -/
def defaultType? (env : TypeEnv) (visible : Typed) (expression : Expr) : Option Ty :=
  env.defaultFrom? env.members visible expression

/-- Types of the parameters or results of a function. -/
def functionMembers (env : TypeEnv) (decl : FunctionDecl) (role : BlockRole) : Typed :=
  env.blockFrom env.members decl role

end TypeEnv

end DecisionLang
