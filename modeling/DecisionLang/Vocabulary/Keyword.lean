/-!
# Reserved words

The words of the language that cannot be used as names. A word is reserved exactly when it is
spelled like one of them, letter case included: main statement `ofSpelling?_spelling`.
-/

namespace DecisionLang

/-- Reserved words, named for what they introduce. -/
inductive Keyword where
  | function | enumeration | table | record | scenario | inclusion
  | parameters | results | code
  | validationTable | expectError | expectErrors | expectComponentErrors | expectExecutionErrors
  | ifBranch | elseIfBranch | elseBranch | switch | case | default | var
  | trueLiteral | falseLiteral
  deriving DecidableEq

namespace Keyword

/-- Part of the language a reserved word belongs to. -/
inductive Category where
  | declaration | block | scenario | statement | literal
  deriving DecidableEq

/-- Every reserved word, in the order of the reference documentation. -/
def all : List Keyword :=
  [function, enumeration, table, record, scenario, inclusion, parameters, results, code,
    validationTable, expectError, expectErrors, expectComponentErrors, expectExecutionErrors,
    ifBranch, elseIfBranch, elseBranch, switch, case, default, var, trueLiteral, falseLiteral]

def spelling : Keyword → String
  | function => "function"
  | enumeration => "enum"
  | table => "table"
  | record => "type"
  | scenario => "scenario"
  | inclusion => "include"
  | parameters => "parameters"
  | results => "results"
  | code => "code"
  | validationTable => "validationTable"
  | expectError => "expectError"
  | expectErrors => "expectErrors"
  | expectComponentErrors => "expectComponentErrors"
  | expectExecutionErrors => "expectExecutionErrors"
  | ifBranch => "if"
  | elseIfBranch => "elseif"
  | elseBranch => "else"
  | switch => "switch"
  | case => "case"
  | default => "default"
  | var => "var"
  | trueLiteral => "true"
  | falseLiteral => "false"

def category : Keyword → Category
  | function | enumeration | table | record | scenario | inclusion => .declaration
  | parameters | results | code => .block
  | validationTable | expectError | expectErrors | expectComponentErrors
  | expectExecutionErrors => .scenario
  | ifBranch | elseIfBranch | elseBranch | switch | case | default | var => .statement
  | trueLiteral | falseLiteral => .literal

def description : Keyword → String
  | function => "function declaration"
  | enumeration => "enumeration declaration"
  | table => "table declaration"
  | record => "record type declaration"
  | scenario => "test scenario declaration"
  | inclusion => "include another source file"
  | parameters => "function parameters block"
  | results => "function results block"
  | code => "function code block"
  | validationTable => "scenario validation table"
  | expectError => "single expected error"
  | expectErrors => "list of expected errors"
  | expectComponentErrors => "errors expected on the tested component"
  | expectExecutionErrors => "errors expected while executing"
  | ifBranch => "conditional block"
  | elseIfBranch => "chained conditional block"
  | elseBranch => "fallback conditional block"
  | switch => "multi-way branch"
  | case => "switch branch"
  | default => "fallback switch branch"
  | var => "variable with an inferred type"
  | trueLiteral => "boolean true"
  | falseLiteral => "boolean false"

def ofSpelling? (word : String) : Option Keyword :=
  all.find? fun keyword => keyword.spelling == word

/-- Words that may open a line at the outermost depth of a document. -/
def roots : List Keyword :=
  all.filter fun keyword => keyword.category == .declaration

theorem ofSpelling?_spelling (keyword : Keyword) :
    ofSpelling? keyword.spelling = some keyword := by
  cases keyword <;> decide

end Keyword

end DecisionLang
