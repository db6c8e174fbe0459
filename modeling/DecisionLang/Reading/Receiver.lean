import DecisionLang.Reading.Indentation
import DecisionLang.Tree.Document

/-!
# Receivers of lines

The parts of a document that take lines: the document takes root declarations, a declaration takes
its blocks or members, a block takes its entries, a block expression takes the lines of its body.
Every receiver numbers the receivers inside it by slots.
-/

namespace DecisionLang

inductive Receiver where
  | document (document : Document)
  | function (decl : FunctionDecl)
  | definitions (block : VariableBlock)
  | enumeration (decl : EnumDecl)
  | table (decl : TableDecl)
  | record (decl : RecordDecl)
  | scenario (decl : ScenarioDecl)
  | assignments (block : AssignmentBlock)
  | validationTable (table : ValidationTable)
  | expectedErrors (block : ExpectedErrors)
  /-- Lines of code: those of a function or of a block expression. -/
  | body (expressions : List Expr)
  | expression (item : Expr)

/-- Blocks of a function. -/
inductive FunctionBlock where
  | parameters | results | code
  deriving DecidableEq

namespace FunctionBlock

def all : List FunctionBlock := [parameters, results, code]

def keyword : FunctionBlock → Keyword
  | parameters => .parameters
  | results => .results
  | code => .code

def slot : FunctionBlock → Nat
  | parameters => 0
  | results => 1
  | code => 2

def ofSlot? (slot : Nat) : Option FunctionBlock := all.find? fun block => block.slot == slot

def ofKeyword? (keyword : Keyword) : Option FunctionBlock :=
  all.find? fun block => block.keyword == keyword

end FunctionBlock

/-- Blocks of a scenario that take lines. A function takes them only if it is written out. -/
inductive ScenarioBlock where
  | function | enumeration | table | parameters | results | validationTable
  | expectErrors | expectComponentErrors | expectExecutionErrors
  deriving DecidableEq

namespace ScenarioBlock

def all : List ScenarioBlock :=
  [function, enumeration, table, parameters, results, validationTable, expectErrors,
    expectComponentErrors, expectExecutionErrors]

def keyword : ScenarioBlock → Keyword
  | function => .function
  | enumeration => .enumeration
  | table => .table
  | parameters => .parameters
  | results => .results
  | validationTable => .validationTable
  | expectErrors => .expectErrors
  | expectComponentErrors => .expectComponentErrors
  | expectExecutionErrors => .expectExecutionErrors

def slot : ScenarioBlock → Nat
  | function => 0
  | enumeration => 1
  | table => 2
  | parameters => 3
  | results => 4
  | validationTable => 5
  | expectErrors => 6
  | expectComponentErrors => 7
  | expectExecutionErrors => 8

def ofSlot? (slot : Nat) : Option ScenarioBlock := all.find? fun block => block.slot == slot

def ofKeyword? (keyword : Keyword) : Option ScenarioBlock :=
  all.find? fun block => block.keyword == keyword

end ScenarioBlock

namespace Expr

/-- Lines below a branch; a switch has cases instead. -/
def body? : Expr → Option (List Expr)
  | ifThen _ _ body _ | elseIf _ _ body | otherwise _ body | case _ _ body => some body
  | _ => none

/-- Replaces the lines below a branch. -/
def withBody (body : List Expr) : Expr → Expr
  | ifThen mark condition _ alternatives => ifThen mark condition body alternatives
  | elseIf mark condition _ => elseIf mark condition body
  | otherwise mark _ => otherwise mark body
  | case mark value _ => case mark value body
  | other => other

theorem body?_withBody {expression : Expr} {body new : List Expr}
    (h : expression.body? = some body) : (expression.withBody new).body? = some new := by
  cases expression <;> simp_all [body?, withBody]

end Expr

namespace FunctionDecl

def block? (decl : FunctionDecl) : FunctionBlock → Option Receiver
  | .parameters => decl.parameters.map .definitions
  | .results => decl.results.map .definitions
  | .code => decl.code.map fun code => .body code.expressions

def withBlock (decl : FunctionDecl) : FunctionBlock → Receiver → FunctionDecl
  | .parameters, .definitions block => { decl with parameters := some block }
  | .results, .definitions block => { decl with results := some block }
  | .code, .body expressions => { decl with code := decl.code.map ({ · with expressions }) }
  | _, _ => decl

/-- Adds an empty block that starts at a place. -/
def openBlock (decl : FunctionDecl) (reference : Reference) : FunctionBlock → FunctionDecl
  | .parameters => { decl with parameters := some ⟨reference, []⟩ }
  | .results => { decl with results := some ⟨reference, []⟩ }
  | .code => { decl with code := some ⟨reference, []⟩ }

end FunctionDecl

namespace ScenarioDecl

def block? (decl : ScenarioDecl) : ScenarioBlock → Option Receiver
  | .function => decl.inlineFunction?.map .function
  | .enumeration => decl.enumeration.map .enumeration
  | .table => decl.table.map .table
  | .parameters => decl.parameters.map .assignments
  | .results => decl.results.map .assignments
  | .validationTable => decl.validationTable.map .validationTable
  | .expectErrors => decl.expectErrors.map .expectedErrors
  | .expectComponentErrors => decl.expectComponentErrors.map .expectedErrors
  | .expectExecutionErrors => decl.expectExecutionErrors.map .expectedErrors

def withBlock (decl : ScenarioDecl) : ScenarioBlock → Receiver → ScenarioDecl
  | .function, .function inner => { decl with function := some (.inline inner) }
  | .enumeration, .enumeration inner => { decl with enumeration := some inner }
  | .table, .table inner => { decl with table := some inner }
  | .parameters, .assignments block => { decl with parameters := some block }
  | .results, .assignments block => { decl with results := some block }
  | .validationTable, .validationTable inner => { decl with validationTable := some inner }
  | .expectErrors, .expectedErrors block => { decl with expectErrors := some block }
  | .expectComponentErrors, .expectedErrors block =>
    { decl with expectComponentErrors := some block }
  | .expectExecutionErrors, .expectedErrors block =>
    { decl with expectExecutionErrors := some block }
  | _, _ => decl

/-- Adds an empty block that starts at a place. What is written out in a scenario has the name of
the scenario. -/
def openBlock (decl : ScenarioDecl) (reference : Reference) : ScenarioBlock → ScenarioDecl
  | .function =>
    { decl with function := some (.inline (FunctionDecl.empty decl.name reference)) }
  | .enumeration => { decl with enumeration := some (EnumDecl.empty decl.name reference) }
  | .table => { decl with table := some (TableDecl.empty decl.name reference) }
  | .parameters => { decl with parameters := some ⟨reference, []⟩ }
  | .results => { decl with results := some ⟨reference, []⟩ }
  | .validationTable => { decl with validationTable := some ⟨reference, none, []⟩ }
  | .expectErrors => { decl with expectErrors := some ⟨.errors, reference, []⟩ }
  | .expectComponentErrors =>
    { decl with expectComponentErrors := some ⟨.componentErrors, reference, []⟩ }
  | .expectExecutionErrors =>
    { decl with expectExecutionErrors := some ⟨.executionErrors, reference, []⟩ }

end ScenarioDecl

namespace Receiver

def ofDeclaration : Declaration → Receiver
  | .function decl => function decl
  | .enumeration decl => enumeration decl
  | .table decl => table decl
  | .record decl => record decl
  | .scenario decl => scenario decl

def declaration? : Receiver → Option Declaration
  | function decl => some (.function decl)
  | enumeration decl => some (.enumeration decl)
  | table decl => some (.table decl)
  | record decl => some (.record decl)
  | scenario decl => some (.scenario decl)
  | _ => none

/-- The receiver in a slot. A chain of branches has its body in slot 0 and its alternatives in
the slots after that. -/
def slot? : Receiver → Nat → Option Receiver
  | document whole, slot => whole.declarations[slot]?.map ofDeclaration
  | function decl, slot => (FunctionBlock.ofSlot? slot).bind decl.block?
  | scenario decl, slot => (ScenarioBlock.ofSlot? slot).bind decl.block?
  | body expressions, slot => expressions[slot]?.map expression
  | expression (.ifThen _ _ lines _), 0 => some (body lines)
  | expression (.ifThen _ _ _ alternatives), slot + 1 => alternatives[slot]?.map expression
  | expression (.elseIf _ _ lines), 0 => some (body lines)
  | expression (.otherwise _ lines), 0 => some (body lines)
  | expression (.case _ _ lines), 0 => some (body lines)
  | expression (.switch _ _ cases), slot => cases[slot]?.map expression
  | _, _ => none

/-- Puts a receiver into the slot it came from. -/
def withSlot (receiver : Receiver) (slot : Nat) (inner : Receiver) : Receiver :=
  match receiver with
  | document whole =>
    match inner.declaration? with
    | some declaration =>
      document { whole with declarations := whole.declarations.set slot declaration }
    | none => document whole
  | function decl =>
    function ((FunctionBlock.ofSlot? slot).elim decl fun block => decl.withBlock block inner)
  | scenario decl =>
    scenario ((ScenarioBlock.ofSlot? slot).elim decl fun block => decl.withBlock block inner)
  | body expressions =>
    match inner with
    | expression item => body (expressions.set slot item)
    | _ => body expressions
  | expression item =>
    match inner, slot, item with
    | body lines, 0, item => expression (item.withBody lines)
    | expression alternative, slot + 1, .ifThen mark condition lines alternatives =>
      expression (.ifThen mark condition lines (alternatives.set slot alternative))
    | expression case, slot, .switch mark subject cases =>
      expression (.switch mark subject (cases.set slot case))
    | _, _, item => expression item
  | other => other

/-- The receiver at a path. -/
def at? : Receiver → SlotPath → Option Receiver
  | receiver, [] => some receiver
  | receiver, slot :: path => (receiver.slot? slot).bind fun inner => inner.at? path

/-- Whether the receiver takes lines: an expression does only if it is a block expression. -/
def takesLines : Receiver → Bool
  | expression item => item.isBlock
  | _ => true

@[simp] theorem at?_nil (receiver : Receiver) : receiver.at? [] = some receiver := rfl

@[simp] theorem at?_cons (receiver : Receiver) (slot : Nat) (path : SlotPath) :
    receiver.at? (slot :: path) = (receiver.slot? slot).bind fun inner => inner.at? path := rfl

end Receiver

end DecisionLang
