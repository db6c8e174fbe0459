import DecisionLang.Diagnostic
import DecisionLang.Token.Scan
import DecisionLang.Typing.Ty

/-!
# Faults

Everything that can be wrong with a document, by cause. The wording and the kind of each cause
stand here and nowhere else, so the rest of the library speaks of causes only.
-/

namespace DecisionLang

/-- Side of a binary operator. -/
inductive Side where
  | left | right
  deriving DecidableEq

inductive Fault where
  -- Lines
  | scan (error : ScanError)
  | indentation (reason : String)
  -- Shape of a line
  | invalidToken (found expected : String)
  | wrongForm (construct usage : String)
  | invalidExpression (text : String)
  | noTokens
  | missingCondition (keyword : Keyword)
  | tokensAfter (keyword : Keyword)
  | missingCaseValue
  | missingSpreadCall
  | missingDeclaredValue
  | missingAssignedValue
  | missingOperand (side : Side) (operator : Operator)
  | emptyGroup
  | emptyIndex
  | emptyArgument (call : String)
  | columnArgument (found usage : String)
  | missingColumnArgument (usage : String)
  -- Place of a line in its block
  | duplicateBlock (block : String)
  | alternativeWithoutIf (keyword : Keyword)
  | branchAfterElse (keyword : Keyword)
  | caseOutsideSwitch (keyword : Keyword)
  | caseExpected
  | noBody (expression : String)
  | valueCount (found expected : Nat)
  | emptyCell
  | columnHeader (found : String)
  -- Names
  | duplicateDeclaration (name : String)
  | duplicateName (sort name : String)
  | invalidName (name : String)
  | unknownVariable (name : String)
  | unknownType (name : String)
  | unknownFunction (name : String)
  | unknownTable (name : String)
  | redeclaredVariable (name : String)
  | unknownColumn (column : String)
  | foreignColumn (column table : String)
  | unknownSubject (column : String)
  -- Meaning
  | misplacedSpread
  | assignmentTarget (target : String)
  | duplicateDefault
  | notATable (target : String)
  | noResults (call : String)
  | argumentCount (function expected : String) (found : Nat)
  | duplicateEnumValue (value : Int)
  | selfContaining (member type : String)
  | missingDefault (name : String)
  | missingSubject (scenario : String)
  | emptyEnum (name : String)
  | missingHeader (table : String)
  -- Types
  | typeMismatch (context expected actual : String)
  | operandTypes (operator left right : String)
  | conditionType (keyword : Keyword) (actual : Ty)
  | expressionType (expected actual : Ty)
  | notAssignable (name : String) (target value : Ty)
  | extractType (actual : Ty)
  | typeArgument (function : String) (actual : Ty)
  -- Between declarations and files
  | circularReference (names : List String)
  | invalidInclude (name : String)

namespace Fault

def kind : Fault → ErrorKind
  | scan _ => .lexical
  | indentation _ => .indentation
  | invalidToken .. | wrongForm .. | invalidExpression .. | noTokens | missingCondition ..
  | tokensAfter .. | missingCaseValue | missingSpreadCall | missingDeclaredValue
  | missingAssignedValue | missingOperand .. | emptyGroup | emptyIndex | emptyArgument ..
  | columnArgument .. | missingColumnArgument .. | duplicateBlock .. | alternativeWithoutIf ..
  | branchAfterElse .. | caseOutsideSwitch .. | caseExpected | noBody .. | valueCount ..
  | emptyCell | columnHeader .. => .grammar
  | duplicateDeclaration .. | duplicateName .. | invalidName .. | unknownVariable ..
  | unknownType .. | unknownFunction .. | unknownTable .. | redeclaredVariable ..
  | unknownColumn .. | foreignColumn .. | unknownSubject .. | misplacedSpread
  | assignmentTarget .. | duplicateDefault | notATable .. | noResults .. | argumentCount ..
  | duplicateEnumValue .. | selfContaining .. | missingDefault .. | missingSubject ..
  | emptyEnum .. | missingHeader .. => .semantic
  | typeMismatch .. | operandTypes .. | conditionType .. | expressionType .. | notAssignable ..
  | extractType .. | typeArgument .. => .type
  | circularReference _ => .dependency
  | invalidInclude _ => .inclusion

def sideText : Side → String
  | .left => "left"
  | .right => "right"

def message : Fault → String
  | scan error => error.message
  | indentation reason => s!"Invalid indentation: {reason}"
  | invalidToken found expected => s!"Invalid token '{found}'. {expected}"
  | wrongForm construct usage => s!"Invalid {construct}: expected '{usage}'."
  | invalidExpression text => s!"Invalid expression: '{text}'"
  | noTokens => "Invalid expression: no tokens."
  | missingCondition keyword =>
    s!"Invalid '{keyword.spelling}' expression: condition expected."
  | tokensAfter keyword =>
    s!"Invalid '{keyword.spelling}' expression: no tokens expected after '{keyword.spelling}'."
  | missingCaseValue => "Invalid 'case' expression: value expected."
  | missingSpreadCall => "Invalid spread assignment: function call expected."
  | missingDeclaredValue => "Invalid variable declaration: value expected after '='."
  | missingAssignedValue => "Invalid assignment: value expected after '='."
  | missingOperand side operator =>
    s!"Invalid expression: {sideText side} operand expected for '{operator.spelling}'."
  | emptyGroup => "Invalid parenthesized expression: expression expected."
  | emptyIndex => "Invalid bracketed expression: index expected."
  | emptyArgument call => s!"Invalid function call '{call}': empty argument."
  | columnArgument found usage =>
    s!"Invalid column argument '{found}': expected 'Table.Column' in '{usage}'."
  | missingColumnArgument usage =>
    s!"Invalid column argument: expected 'Table.Column' in '{usage}'."
  | duplicateBlock block => s!"Duplicated '{block}' block."
  | alternativeWithoutIf keyword =>
    s!"Invalid '{keyword.spelling}' expression: 'if' expected before '{keyword.spelling}'."
  | branchAfterElse keyword =>
    s!"Invalid '{keyword.spelling}' expression: no branch allowed after 'else'."
  | caseOutsideSwitch keyword =>
    s!"Invalid '{keyword.spelling}' expression: only allowed inside a 'switch'."
  | caseExpected => "Invalid 'switch' expression: 'case' or 'default' expected."
  | noBody expression => s!"Invalid indentation: '{expression}' has no body."
  | valueCount found expected =>
    s!"Invalid number of values: {found} found, {expected} expected."
  | emptyCell => "Invalid table row: empty value."
  | columnHeader found => s!"Invalid column header '{found}': expected 'type Name'."
  | duplicateDeclaration name => s!"Duplicated node name: '{name}'"
  | duplicateName sort name => s!"Duplicated {sort} name: '{name}'"
  | invalidName name => s!"Invalid identifier: '{name}'"
  | unknownVariable name => s!"Unknown variable name: '{name}'."
  | unknownType name => s!"Unknown type: '{name}'"
  | unknownFunction name => s!"Unknown function name: '{name}'"
  | unknownTable name => s!"Unknown table name: '{name}'"
  | redeclaredVariable name => s!"Duplicated variable name: '{name}'"
  | unknownColumn column => s!"Unknown column name: '{column}'."
  | foreignColumn column table =>
    s!"Invalid column reference '{column}': table '{table}' expected."
  | unknownSubject column => s!"Unknown parameter or result: '{column}'."
  | misplacedSpread => "Invalid spread: '...' is only allowed as a function argument."
  | assignmentTarget target => s!"Invalid assignment target '{target}': variable expected."
  | duplicateDefault => "Duplicated 'default' case."
  | notATable target => s!"Invalid indexer: '{target}' is not a table."
  | noResults call => s!"Invalid spread assignment: '{call}' has no results."
  | argumentCount function expected found =>
    s!"Invalid number of arguments for '{function}': {expected} expected, {found} found."
  | duplicateEnumValue value => s!"Duplicated enum value: '{value}'"
  | selfContaining member type =>
    s!"Invalid member '{member}': type '{type}' cannot contain itself."
  | missingDefault name =>
    s!"Invalid variable declaration '{name}': 'var' requires a default value."
  | missingSubject scenario =>
    s!"Invalid scenario '{scenario}': function, enum or table expected."
  | emptyEnum name => s!"Invalid enum '{name}': no members."
  | missingHeader table => s!"Invalid table '{table}': no header."
  | typeMismatch context expected actual =>
    s!"{context}: type mismatch. Expected '{expected}' but got '{actual}'."
  | operandTypes operator left right =>
    s!"Invalid operator '{operator}' for types '{left}' and '{right}'."
  | conditionType keyword actual =>
    s!"Invalid '{keyword.spelling}' condition type '{actual.text}'. Expected 'boolean'."
  | expressionType expected actual =>
    s!"Invalid expression type '{actual.text}'. Expected '{expected.text}'."
  | notAssignable name target value =>
    s!"Variable '{name}' of type '{target.text}' is not assignable from type '{value.text}'."
  | extractType actual =>
    s!"Invalid 'extract' argument type '{actual.text}': type with members expected."
  | typeArgument function actual =>
    s!"Invalid '{function}' argument '{actual.text}': type with members expected."
  | circularReference names =>
    let list := ", ".intercalate (names.map fun name => s!"'{name}'")
    s!"Circular reference detected in: {list}"
  | invalidInclude name => s!"Invalid include file name '{name}'"

/-- Hints that come with a cause wherever it occurs. -/
def hints : Fault → List String
  | invalidName _ =>
    ["Identifiers start with a letter and contain only letters, digits and '_'."]
  | _ => []

/-- The diagnostic for this fault at a place. -/
def located (fault : Fault) (reference : Reference) : Diagnostic :=
  ⟨fault.kind, fault.message, reference, fault.hints⟩

end Fault

end DecisionLang
