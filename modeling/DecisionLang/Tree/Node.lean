import DecisionLang.Tree.Document

/-!
# Nodes

One view of every part of a document: its kind, place, name and ordered parts. Blocks that are
absent are no parts, and the body of a block expression is one part that holds the lines of the
body, so the view keeps the shape of the source.
-/

namespace DecisionLang

inductive Node where
  | function (decl : FunctionDecl)
  | definitions (role : BlockRole) (block : VariableBlock)
  | definition (item : Definition)
  | code (block : CodeBlock)
  | enumeration (decl : EnumDecl)
  | enumMember (member : EnumMember)
  | table (decl : TableDecl)
  | header (item : TableHeader)
  | column (item : Column)
  | row (item : TableRow)
  | record (decl : RecordDecl)
  | scenario (decl : ScenarioDecl)
  | testedFunction (function : TestedFunction)
  | assignments (role : BlockRole) (block : AssignmentBlock)
  | validationTable (table : ValidationTable)
  | expectedErrors (block : ExpectedErrors)
  /-- The body of a block expression, at the place of that expression. -/
  | body (reference : Reference) (expressions : List Expr)
  | expression (item : Expr)

namespace Expr

/-- Sort of an expression, as trees print it. -/
def kindText : Expr → String
  | literal .. => "LiteralExpression"
  | name .. => "IdentifierExpression"
  | path .. => "MemberAccessExpression"
  | binary .. => "BinaryExpression"
  | assign .. => "AssignmentExpression"
  | declare .. => "VariableDeclarationExpression"
  | group .. => "ParenthesizedExpression"
  | indexed .. => "BracketedExpression"
  | make _ .new _ _ => "NewFunctionExpression"
  | make _ .fill _ _ => "FillFunctionExpression"
  | extract .. => "ExtractFunctionExpression"
  | lookUp .. => "TableFunctionExpression"
  | call .. => "FunctionCallExpression"
  | ifThen .. => "IfExpression"
  | elseIf .. => "ElseIfExpression"
  | otherwise .. => "ElseExpression"
  | switch .. => "SwitchExpression"
  | case .. => "CaseExpression"
  | spread _ => "SpreadExpression"
  | spreadAssign .. => "SpreadAssignmentExpression"

/-- Direct parts, with a body as one part. -/
def nodes : Expr → List Node
  | ifThen mark condition body alternatives =>
    .expression condition :: .body mark.reference body :: alternatives.map .expression
  | elseIf mark condition body => [.expression condition, .body mark.reference body]
  | otherwise mark body => [.body mark.reference body]
  | case mark value body => value.toList.map .expression ++ [.body mark.reference body]
  | other => other.children.map .expression

end Expr

namespace Node

def ofDeclaration : Declaration → Node
  | .function decl => function decl
  | .enumeration decl => enumeration decl
  | .table decl => table decl
  | .record decl => record decl
  | .scenario decl => scenario decl

/-- Sort of a node, as trees print it. -/
def kindText : Node → String
  | function _ => "Function"
  | definitions .parameters _ => "FunctionParameters"
  | definitions .results _ => "FunctionResults"
  | definition _ => "VariableDefinition"
  | code _ => "FunctionCode"
  | enumeration _ => "EnumDefinition"
  | enumMember _ => "EnumMember"
  | table _ => "Table"
  | header _ => "TableHeader"
  | column _ => "ColumnHeader"
  | row _ => "TableRow"
  | record _ => "TypeDefinition"
  | scenario _ => "Scenario"
  | testedFunction _ => "ScenarioFunctionName"
  | assignments .parameters _ => "ScenarioParameters"
  | assignments .results _ => "ScenarioResults"
  | validationTable _ => "ValidationTable"
  | expectedErrors _ => "ExpectedErrors"
  | body .. => "ExpressionList"
  | expression item => item.kindText

def reference : Node → Reference
  | function decl => decl.reference
  | definitions _ block => block.reference
  | definition item => item.reference
  | code block => block.reference
  | enumeration decl => decl.reference
  | enumMember item => item.reference
  | table decl => decl.reference
  | header item => item.reference
  | column item => item.reference
  | row item => item.reference
  | record decl => decl.reference
  | scenario decl => decl.reference
  | testedFunction item => item.reference
  | assignments _ block => block.reference
  | validationTable item => item.reference
  | expectedErrors block => block.reference
  | body place _ => place
  | expression item => item.reference

/-- Name of a declaration, member, column or variable. -/
def name? : Node → Option String
  | function decl => some decl.name
  | definition item => some item.name
  | enumeration decl => some decl.name
  | enumMember item => some item.name
  | table decl => some decl.name
  | column item => some item.name
  | record decl => some decl.name
  | scenario decl => some decl.name
  | testedFunction item => some item.name
  | _ => none

/-- The node of the function under test: its whole declaration if that is written out. -/
def ofTestedFunction : TestedFunction → Node
  | .inline decl => function decl
  | tested => testedFunction tested

def ofScenario (decl : ScenarioDecl) : List Node :=
  (decl.function.map ofTestedFunction).toList ++ (decl.enumeration.map enumeration).toList ++
    (decl.table.map table).toList ++
    (decl.parameters.map (assignments .parameters)).toList ++
    (decl.results.map (assignments .results)).toList ++
    (decl.validationTable.map validationTable).toList ++ decl.expectations.map expectedErrors

/-- Direct parts in source order. -/
def children : Node → List Node
  | function decl =>
    (decl.parameters.map (definitions .parameters)).toList ++
      (decl.results.map (definitions .results)).toList ++ (decl.code.map code).toList
  | definitions _ block => block.definitions.map definition
  | definition item => item.default.toList.map expression
  | code block => block.expressions.map expression
  | enumeration decl => decl.members.map enumMember
  | table decl => (decl.header.map header).toList ++ decl.rows.map row
  | header item => item.columns.map column
  | row item => item.values.map expression
  | record decl => decl.members.map definition
  | scenario decl => ofScenario decl
  | assignments _ block => block.assignments.map expression
  | validationTable item => item.rows.map row
  | body _ expressions => expressions.map expression
  | expression item => item.nodes
  | enumMember _ | column _ | testedFunction _ | expectedErrors _ => []

end Node

end DecisionLang
