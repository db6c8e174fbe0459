import DecisionLang.Tree.Document
import DecisionLang.Typing.OperatorRule

/-!
# Types by name

The declarations of a document and the operator rules decide all questions about types. This
module answers which type a name or a written type stands for.

A written type can name a column of a table, whose own written type can name a column in turn.
Such chains are followed one column at a time (`step`). One that comes back to a column it has
passed never ends, so that the written types on it are not settled by any number of steps; as it has
passed at most every column once before that, `columnCount` bounds the steps to try. The language
gives no meaning to a question that meets such a chain. The total functions take its columns to have
no type, and `TypeEnv.answer?` says which questions have an answer at all.
-/

namespace DecisionLang

structure TypeEnv where
  document : Document
  rules : OperatorRules

namespace TypeEnv

/-- Type of a root declaration, named where a value is expected. -/
def rootType? (env : TypeEnv) (name : String) : Option Ty :=
  match env.document.find? name with
  | some (.function decl) => some (.function decl.name)
  | some (.enumeration decl) => some (.enumeration decl.name)
  | some (.table decl) => some (.table decl.name)
  | some (.record decl) => some (.record decl.name)
  | some (.scenario _) | none => none

/-- The part of a function that a member of it stands for. -/
def functionPart? (member : String) : Option GeneratedPart :=
  [GeneratedPart.parameters, GeneratedPart.results].find? fun part => part.member == member

/-- What the first step of resolving a written type comes to. -/
inductive Resolution where
  | settled (type : Option Ty)
  /-- The type of a column, if that is an object type. -/
  | column (type : WrittenType)

/-- A name as a type: a primitive, an enumeration or a record type. -/
def namedType? (env : TypeEnv) (name : String) : Option Ty :=
  match Primitive.ofSpelling? name with
  | some kind => some (.primitive kind)
  | none => (env.rootType? name).filter Ty.isNameable

/-- A member of a root declaration as a type: a generated type, or the type of a column. -/
def memberStep (env : TypeEnv) (owner member : String) : Resolution :=
  match env.rootType? owner with
  | some (.function name) => .settled ((functionPart? member).map (.generated name))
  | some (.table name) =>
    match env.document.table? name with
    | none => .settled none
    | some table =>
      if member = GeneratedPart.row.member then .settled (some (.generated name .row))
      else if member = countMember then .settled none
      else (table.column? member).elim (.settled none) fun column => .column column.type
  | _ => .settled none

def step (env : TypeEnv) : WrittenType → Resolution
  | .primitive kind => .settled (some (.primitive kind))
  | .implicit => .settled none
  | .named ⟨name, []⟩ => .settled (env.namedType? name)
  | .named ⟨owner, [member]⟩ => env.memberStep owner member
  | .named _ => .settled none

/-- The type a written type stands for, or that it stands for none, if that is settled within some
steps. -/
def resolveWithin (env : TypeEnv) : Nat → WrittenType → Option (Option Ty)
  | 0, _ => none
  | steps + 1, type =>
    match env.step type with
    | .settled type => some type
    | .column type => (env.resolveWithin steps type).map (·.filter Ty.isObject)

/-- The columns of all tables. -/
def columns (env : TypeEnv) : List Column :=
  env.document.declarations.flatMap fun
    | .table decl => decl.columns
    | _ => []

/-- Number of columns of all tables. -/
def columnCount (env : TypeEnv) : Nat := env.columns.length

/-- The type a written type stands for. It is none, too, for a written type that is never settled;
`answer?` tells the two apart. -/
def resolve? (env : TypeEnv) (type : WrittenType) : Option Ty :=
  (env.resolveWithin (env.columnCount + 1) type).join

def resolvePath? (env : TypeEnv) (path : NamePath) : Option Ty := env.resolve? (.named path)

end TypeEnv

end DecisionLang
