import DecisionLang.Typing.Assignable

/-!
# Questions about types

The functions about types know no bound and count a chain of columns that comes back as no type. The
questions are asked here in steps, where a step resolves the written type of one more column, enters
one more object type or compares one more pair: a question is settled if some number of steps is
enough, and a question that meets a chain which comes back never is. `stepBound` is a number that is
enough for all questions that can be settled, so `answer?` tells the two apart.
-/

namespace DecisionLang

/-- An answer, or none, that is settled. -/
def settled {α : Type} (answer : Option α) : OptionT Option α := OptionT.mk (some answer)

namespace TypeEnv

section Steps

variable (env : TypeEnv) (resolve : WrittenType → OptionT Option Ty) (members : Ty → Option Typed)

/-- Type of a column of a table. -/
def columnTypeIn (table column : String) : OptionT Option Ty := do
  let table ← settled (env.document.table? table)
  let column ← settled (table.column? column)
  resolve column.type

/-- Type of a member of a value. -/
def memberIn (owner : Ty) (member : String) : OptionT Option Ty :=
  match owner with
  | .enumeration name =>
    settled ((env.document.enumeration? name).bind fun decl =>
      if decl.hasMember member then some owner else none)
  | .table name => do
    let _ ← settled (env.document.table? name)
    if member = GeneratedPart.row.member then settled (some (.generated name .row))
    else if member = countMember then settled (some .number)
    else env.columnTypeIn resolve name member
  | .function name => settled ((functionPart? member).map (.generated name))
  | .record _ | .generated _ _ =>
    OptionT.mk ((members owner).map fun typed => typed.first? member)
  | .primitive _ | .void => settled none

/-- Type of a default value after other definitions. -/
def defaultIn (visible : Typed) : Expr → OptionT Option Ty
  | .literal _ value => settled (some (.primitive value.primitive))
  | .name _ word => settled (visible.last? word)
  | .path _ names => do
    let root ← settled ((visible.last? names.root).or (env.rootType? names.root))
    names.members.foldlM (env.memberIn resolve members) root
  | .group _ inner => defaultIn visible inner
  | .binary _ left operator right => do
    let left ← defaultIn visible left
    let right ← defaultIn visible right
    settled (env.rules.result? operator left right)
  | .make _ _ type _ => do
    let type ← resolve (.named type)
    settled (if type.isObject then some type else none)
  | .lookUp _ _ table _ _ _ _ _ resultColumn =>
    match resultColumn with
    | some column => env.columnTypeIn resolve table column.column
    | none => settled (some (.generated table .row))
  | .call _ function _ =>
    settled (if (env.document.function? function).isSome then some (.generated function .results)
      else (LibraryFunction.ofSpelling? function).map fun library => .primitive library.result)
  | _ => settled none

/-- Type of a definition. -/
def definitionIn (visible : Typed) (definition : Definition) : OptionT Option Ty :=
  match definition.type with
  | .implicit =>
    match definition.default with
    | some default => env.defaultIn resolve members visible default
    | none => settled none
  | written => resolve written

/-- Types of the definitions of a block. -/
def definitionsIn (visible : Typed) : List Definition → Option Typed
  | [] => some []
  | definition :: rest => do
    match ← (env.definitionIn resolve members visible definition).run with
    | some type =>
      let others ← definitionsIn (visible ++ [(definition.name, type)]) rest
      return (definition.name, type) :: others
    | none => definitionsIn visible rest

/-- Types of the parameters or results of a function. -/
def blockIn (decl : FunctionDecl) (role : BlockRole) : Option Typed := do
  let parameters ← env.definitionsIn resolve members [] decl.parameterDefinitions
  match role with
  | .parameters => return parameters
  | .results => env.definitionsIn resolve members parameters decl.resultDefinitions

/-- Types of the columns of a table. -/
def columnTypesIn (resolve : WrittenType → OptionT Option Ty) : List Column → Option Typed
  | [] => some []
  | column :: rest => do
    let type? ← (resolve column.type).run
    let others ← columnTypesIn resolve rest
    return (type?.map fun type => (column.name, type)).toList ++ others

/-- Members of an object type. -/
def membersIn : Ty → Option Typed
  | .record name =>
    match env.document.record? name with
    | some decl => env.definitionsIn resolve members [] decl.members
    | none => some []
  | .generated owner .row =>
    match env.document.table? owner with
    | some decl => columnTypesIn resolve decl.columns
    | none => some []
  | .generated owner .parameters =>
    match env.document.function? owner with
    | some decl => env.blockIn resolve members decl .parameters
    | none => some []
  | .generated owner .results =>
    match env.document.function? owner with
    | some decl => env.blockIn resolve members decl .results
    | none => some []
  | _ => some []

end Steps

/-- A written type, in some steps. -/
def resolveIn (env : TypeEnv) (steps : Nat) (type : WrittenType) : OptionT Option Ty :=
  OptionT.mk (env.resolveWithin steps type)

/-- Members of an object type, in some steps. An object type that is met again on the way to its
members has none there. -/
def membersWithin (env : TypeEnv) : Nat → List Ty → Ty → Option Typed
  | 0, _, _ => none
  | steps + 1, visiting, object =>
    if object ∈ visiting then some []
    else env.membersIn (env.resolveIn steps) (env.membersWithin steps (object :: visiting)) object

/-- Whether a value can be stored, in some steps. -/
def assignableWithin (env : TypeEnv) : Nat → List (Ty × Ty) → Ty → Ty → Option Bool
  | 0, _, _, _ => none
  | steps + 1, comparing, target, value =>
    if target = value then some true
    else if !target.isObject || !value.isObject then some false
    else if (target, value) ∈ comparing then some true
    else do
      let offered ← env.membersWithin steps [] value
      let wanted ← env.membersWithin steps [] target
      wanted.allM fun want => offered.anyM fun offer =>
        if offer.1 == want.1 then
          env.assignableWithin steps ((target, value) :: comparing) want.2 offer.2
        else some false

end TypeEnv

/-- A question about types. -/
inductive TypeQuery where
  | path (path : NamePath)
  | written (type : WrittenType)
  | member (owner : Ty) (name : String)
  | members (object : Ty)
  | functionMembers (decl : FunctionDecl) (role : BlockRole)
  | default (visible : Typed) (expression : Expr)
  | assignable (target value : Ty)

inductive TypeAnswer where
  | type (type : Option Ty)
  | members (typed : Typed)
  | holds (answer : Bool)
  deriving DecidableEq

namespace TypeEnv

def answer (env : TypeEnv) : TypeQuery → TypeAnswer
  | .path path => .type (env.resolvePath? path)
  | .written type => .type (env.resolve? type)
  | .member owner name => .type (env.member? owner name)
  | .members object => .members (env.members object)
  | .functionMembers decl role => .members (env.functionMembers decl role)
  | .default visible expression => .type (env.defaultType? visible expression)
  | .assignable target value => .holds (env.assignable target value)

/-- The answer to a question if it takes no more than some steps. -/
def answerWithin (env : TypeEnv) (steps : Nat) : TypeQuery → Option TypeAnswer
  | .path path => (env.resolveWithin steps (.named path)).map .type
  | .written type => (env.resolveWithin steps type).map .type
  | .member owner name =>
    (env.memberIn (env.resolveIn steps) (env.membersWithin steps []) owner name).run.map .type
  | .members object => (env.membersWithin steps [] object).map .members
  | .functionMembers decl role =>
    (env.blockIn (env.resolveIn steps) (env.membersWithin steps []) decl role).map .members
  | .default visible expression =>
    (env.defaultIn (env.resolveIn steps) (env.membersWithin steps []) visible expression).run.map
      .type
  | .assignable target value => (env.assignableWithin steps [] target value).map .holds

/-- Object types and columns that a query about members may have to enter. -/
def memberSteps (env : TypeEnv) : Nat := unmet env.objectTypes [] + env.columnCount + 2

/-- Steps that are enough for every query. -/
def stepBound (env : TypeEnv) : Nat := unmet env.objectPairs [] + env.memberSteps + 1

/-- The answer to a question, or none if it is never settled. -/
def answer? (env : TypeEnv) (query : TypeQuery) : Option TypeAnswer :=
  env.answerWithin env.stepBound query

/-- Whether the written types of all columns are settled. -/
def isSettled (env : TypeEnv) : Bool :=
  env.columns.all fun column => (env.answer? (.written column.type)).isSome

end TypeEnv

end DecisionLang
