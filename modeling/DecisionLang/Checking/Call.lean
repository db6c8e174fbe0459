import DecisionLang.Checking.Part

/-!
# Rules for calls

Object and table functions are built in. Any other name is a declared function, or, if there is
none of that name, a library function.
-/

namespace DecisionLang.Check

/-- The object type that an argument names. -/
def typeArgument (env : TypeEnv) (function : String) (type : NamePath) (reference : Reference) :
    Check (Option Ty) := do
  match env.resolvePath? type with
  | some object =>
    if object.isObject then return some object
    else
      report (.typeArgument function object) reference
      return none
  | none =>
    report (.unknownType type.text) reference
    return none

/-- Direction in which values flow between members and variables of the same names. -/
inductive Flow where
  | intoMember | intoVariable

/-- A member must go together with the variable of the same name, if there is one. -/
def sameNamed (env : TypeEnv) (flow : Flow) (reference : Reference) (member : String × Ty) :
    Check Unit := do
  if let some found := (← get).scopes.find? member.1 then
    let (wanted, offered) := match flow with
      | .intoMember => (member.2, found.type)
      | .intoVariable => (found.type, member.2)
    if !env.assignable wanted offered then
      report (.notAssignable member.1 wanted offered) reference

/-- All members of an object against the variables of the same names. -/
def sameNamedMembers (env : TypeEnv) (flow : Flow) (object : Ty) (reference : Reference) :
    Check Unit :=
  (env.members object).forM (sameNamed env flow reference)

def make (env : TypeEnv) (mark : Mark) (making : Making) (type : NamePath)
    (typeReference : Reference) : Check (Option Ty) := do
  match ← typeArgument env making.function.spelling type typeReference with
  | none => return none
  | some object =>
    if let .fill := making then sameNamedMembers env .intoMember object mark.reference
    return some object

def extract (env : TypeEnv) (mark : Mark) (argument : Part) : Check (Option Ty) := do
  match ← argument.check with
  | none => return none
  | some object =>
    if !object.isObject then
      report (.extractType object) argument.reference
      return none
    else
      sameNamedMembers env .intoVariable object mark.reference
      return some .void

/-- Type of a column that a table function names. -/
def column (env : TypeEnv) (table : TableDecl) (name : ColumnName) : Check (Option Ty) := do
  if name.table ≠ table.name then
    report (.foreignColumn name.text table.name) name.reference
    return none
  else
    match table.column? name.column with
    | none =>
      report (.unknownColumn name.text) name.reference
      return none
    | some found => return env.resolve? found.type

/-- A value to search a column for. -/
def searched (env : TypeEnv) (column? type? : Option Ty) (reference : Reference) : Check Unit :=
  match column?, type? with
  | some wanted, some type => expectAssignable env wanted type reference
  | _, _ => return ()

/-- What a table function is applied to. -/
structure LookUpParts where
  table : String
  tableReference : Reference
  discriminator : Option Part
  value : Part
  discriminatorColumn : Option ColumnName
  searchColumn : ColumnName
  resultColumn : Option ColumnName

/-- Types of the columns against the values searched in them, and the type of the result. -/
def lookUpColumns (env : TypeEnv) (parts : LookUpParts) (table : TableDecl)
    (discriminator? value? : Option Ty) : Check (Option Ty) := do
  let search? ← column env table parts.searchColumn
  searched env search? value? parts.value.reference
  if let some name := parts.discriminatorColumn then
    let type? ← column env table name
    if let some discriminator := parts.discriminator then
      searched env type? discriminator? discriminator.reference
  match parts.resultColumn with
  | some name => column env table name
  | none => return some (.generated table.name .row)

def lookUp (env : TypeEnv) (parts : LookUpParts) : Check (Option Ty) := do
  let discriminator? ← match parts.discriminator with
    | some part => part.check
    | none => pure none
  let value? ← parts.value.check
  match env.document.table? parts.table with
  | none =>
    report (.unknownTable parts.table) parts.tableReference
    return none
  | some table => lookUpColumns env parts table discriminator? value?

/-- A call of a declared function: without arguments, with an object like its parameters, or with
the variables of the same names as the parameters. -/
def declaredCall (env : TypeEnv) (mark : Mark) (function : String) (arguments : List Part) :
    Check (Option Ty) := do
  let parameters : Ty := .generated function .parameters
  match arguments with
  | [] => pure ()
  | [argument] =>
    if argument.isSpread then
      recordType argument.id parameters
      sameNamedMembers env .intoMember parameters argument.reference
    else argument.checkStored env (some parameters)
  | _ =>
    Part.checkAll arguments
    report (.argumentCount function "0 or 1" arguments.length) mark.reference
  return some (.generated function .results)

/-- A call of a library function: surplus arguments are checked before the others. -/
def libraryCall (mark : Mark) (function : LibraryFunction) (arguments : List Part) :
    Check (Option Ty) := do
  let parameters := function.parameters
  Part.checkAll (arguments.drop parameters.length)
  if arguments.length ≠ parameters.length then
    report (.argumentCount function.spelling (toString parameters.length) arguments.length)
      mark.reference
  (arguments.zip parameters).forM fun (argument, kind) => argument.checkExactly (.primitive kind)
  return some (.primitive function.result)

def call (env : TypeEnv) (mark : Mark) (function : String) (arguments : List Part) :
    Check (Option Ty) := do
  if (env.document.function? function).isSome then declaredCall env mark function arguments
  else
    match LibraryFunction.ofSpelling? function with
    | some library => libraryCall mark library arguments
    | none =>
      Part.checkAll arguments
      report (.unknownFunction function) mark.reference
      return none

end DecisionLang.Check
