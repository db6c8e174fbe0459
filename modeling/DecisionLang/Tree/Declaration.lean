import DecisionLang.Tree.Expr

/-!
# Declarations

The root declarations of a document: functions, enumerations, tables, record types, and scenarios,
which are tests of the other three. Blocks that a declaration does not have are absent, never
empty.
-/

namespace DecisionLang

/-- A typed name in a block of parameters or results, or a member of a record type. -/
structure Definition where
  id : Nat
  name : String
  reference : Reference
  type : WrittenType
  default : Option Expr

/-- Whether a block belongs to the parameters or to the results of a function. -/
inductive BlockRole where
  | parameters | results
  deriving DecidableEq

structure VariableBlock where
  reference : Reference
  definitions : List Definition

structure CodeBlock where
  reference : Reference
  expressions : List Expr

structure FunctionDecl where
  name : String
  reference : Reference
  parameters : Option VariableBlock
  results : Option VariableBlock
  code : Option CodeBlock

structure EnumMember where
  name : String
  reference : Reference
  value : Option Int

structure EnumDecl where
  name : String
  reference : Reference
  members : List EnumMember

structure Column where
  name : String
  type : WrittenType
  reference : Reference

structure TableHeader where
  reference : Reference
  columns : List Column

structure TableRow where
  reference : Reference
  values : List Expr

structure TableDecl where
  name : String
  reference : Reference
  header : Option TableHeader
  rows : List TableRow

structure RecordDecl where
  name : String
  reference : Reference
  members : List Definition

/-- Function under test: a declared one by name, or one written out in the scenario. -/
inductive TestedFunction where
  | named (name : String) (reference : Reference)
  | inline (decl : FunctionDecl)

/-- Assignments to the parameters or results of the function under test. -/
structure AssignmentBlock where
  reference : Reference
  assignments : List Expr

/-- A parameter, a result, or a member of one, at the head of a validation column. -/
structure ValidationColumn where
  name : String
  reference : Reference

structure ValidationTable where
  reference : Reference
  header : Option (List ValidationColumn)
  rows : List TableRow

/-- Errors that a block of a scenario is about. -/
inductive ExpectationKind where
  /-- One error of the scenario itself. -/
  | error
  /-- Errors anywhere in the document. -/
  | errors
  /-- Errors of other declarations. -/
  | componentErrors
  /-- Errors of running the scenario. -/
  | executionErrors
  deriving DecidableEq

structure ExpectedErrors where
  kind : ExpectationKind
  reference : Reference
  messages : List String

structure ScenarioDecl where
  name : String
  reference : Reference
  function : Option TestedFunction
  enumeration : Option EnumDecl
  table : Option TableDecl
  parameters : Option AssignmentBlock
  results : Option AssignmentBlock
  validationTable : Option ValidationTable
  expectError : Option ExpectedErrors
  expectErrors : Option ExpectedErrors
  expectComponentErrors : Option ExpectedErrors
  expectExecutionErrors : Option ExpectedErrors

inductive Declaration where
  | function (decl : FunctionDecl)
  | enumeration (decl : EnumDecl)
  | table (decl : TableDecl)
  | record (decl : RecordDecl)
  | scenario (decl : ScenarioDecl)

namespace FunctionDecl

def empty (name : String) (reference : Reference) : FunctionDecl :=
  ⟨name, reference, none, none, none⟩

def parameterDefinitions (decl : FunctionDecl) : List Definition :=
  decl.parameters.elim [] VariableBlock.definitions

def resultDefinitions (decl : FunctionDecl) : List Definition :=
  decl.results.elim [] VariableBlock.definitions

def expressions (decl : FunctionDecl) : List Expr :=
  decl.code.elim [] CodeBlock.expressions

end FunctionDecl

namespace EnumDecl

def empty (name : String) (reference : Reference) : EnumDecl := ⟨name, reference, []⟩

def hasMember (decl : EnumDecl) (name : String) : Bool :=
  decl.members.any fun member => member.name == name

end EnumDecl

namespace TableDecl

def empty (name : String) (reference : Reference) : TableDecl := ⟨name, reference, none, []⟩

def columns (decl : TableDecl) : List Column := decl.header.elim [] TableHeader.columns

def column? (decl : TableDecl) (name : String) : Option Column :=
  decl.columns.find? fun column => column.name == name

/-- The name of the type of one row. -/
def rowPath (decl : TableDecl) : NamePath := ⟨decl.name, [GeneratedPart.row.member]⟩

end TableDecl

namespace RecordDecl

def empty (name : String) (reference : Reference) : RecordDecl := ⟨name, reference, []⟩

def member? (decl : RecordDecl) (name : String) : Option Definition :=
  decl.members.find? fun member => member.name == name

end RecordDecl

namespace TestedFunction

def reference : TestedFunction → Reference
  | named _ place => place
  | inline decl => decl.reference

def name : TestedFunction → String
  | named function _ => function
  | inline decl => decl.name

end TestedFunction

namespace ScenarioDecl

def empty (name : String) (reference : Reference) : ScenarioDecl :=
  ⟨name, reference, none, none, none, none, none, none, none, none, none, none⟩

/-- Name of the declared function under test. -/
def functionName? (decl : ScenarioDecl) : Option String :=
  match decl.function with
  | some (.named name _) => some name
  | _ => none

def inlineFunction? (decl : ScenarioDecl) : Option FunctionDecl :=
  match decl.function with
  | some (.inline function) => some function
  | _ => none

/-- The expectation blocks that are present. -/
def expectations (decl : ScenarioDecl) : List ExpectedErrors :=
  [decl.expectError, decl.expectErrors, decl.expectComponentErrors,
    decl.expectExecutionErrors].filterMap fun block => block

end ScenarioDecl

namespace Declaration

def name : Declaration → String
  | function decl => decl.name
  | enumeration decl => decl.name
  | table decl => decl.name
  | record decl => decl.name
  | scenario decl => decl.name

def reference : Declaration → Reference
  | function decl => decl.reference
  | enumeration decl => decl.reference
  | table decl => decl.reference
  | record decl => decl.reference
  | scenario decl => decl.reference

/-- The word that introduces the declaration. -/
def keyword : Declaration → Keyword
  | function _ => .function
  | enumeration _ => .enumeration
  | table _ => .table
  | record _ => .record
  | scenario _ => .scenario

end Declaration

end DecisionLang
