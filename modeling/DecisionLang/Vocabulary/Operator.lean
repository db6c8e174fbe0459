/-!
# Operators

Every punctuation of the language is an operator: the binary ones, which combine two operands and
have a binding level, and the marks that assign, group, separate and spread.
-/

namespace DecisionLang

inductive Operator where
  | addition | subtraction | multiplication | division | modulus
  | equals | notEqual | greaterThan | greaterThanOrEqual | lessThan | lessThanOrEqual
  | and | or
  | assignment
  | openParenthesis | closeParenthesis | openBracket | closeBracket
  | argumentSeparator | tableSeparator
  | spread
  deriving DecidableEq

namespace Operator

/-- What an operator does in a line. -/
inductive Role where
  | binary | assignment | grouping | separator | spread
  deriving DecidableEq

/-- Every operator, in the order of the reference documentation. -/
def all : List Operator :=
  [spread, or, and, equals, notEqual, greaterThanOrEqual, lessThanOrEqual, greaterThan, lessThan,
    addition, subtraction, multiplication, division, modulus, assignment, openParenthesis,
    closeParenthesis, openBracket, closeBracket, argumentSeparator, tableSeparator]

def spelling : Operator → String
  | addition => "+"
  | subtraction => "-"
  | multiplication => "*"
  | division => "/"
  | modulus => "%"
  | equals => "=="
  | notEqual => "!="
  | greaterThan => ">"
  | greaterThanOrEqual => ">="
  | lessThan => "<"
  | lessThanOrEqual => "<="
  | and => "&&"
  | or => "||"
  | assignment => "="
  | openParenthesis => "("
  | closeParenthesis => ")"
  | openBracket => "["
  | closeBracket => "]"
  | argumentSeparator => ","
  | tableSeparator => "|"
  | spread => "..."

/-- Binding level of a binary operator; a lower level binds wider. -/
def level? : Operator → Option Nat
  | or => some 10
  | and => some 20
  | equals | notEqual => some 30
  | greaterThanOrEqual | lessThanOrEqual | greaterThan | lessThan => some 40
  | addition | subtraction => some 50
  | multiplication | division | modulus => some 60
  | _ => none

def role : Operator → Role
  | assignment => .assignment
  | openParenthesis | closeParenthesis | openBracket | closeBracket => .grouping
  | argumentSeparator | tableSeparator => .separator
  | spread => .spread
  | _ => .binary

def isBinary (operator : Operator) : Bool := operator.role == .binary

def opens (operator : Operator) : Bool :=
  operator == openParenthesis || operator == openBracket

def closes (operator : Operator) : Bool :=
  operator == closeParenthesis || operator == closeBracket

def ofSpelling? (text : String) : Option Operator :=
  all.find? fun operator => operator.spelling == text

/-- The operator with the longest spelling that the text starts with. -/
def longestAtStart? (text : List Char) : Option Operator :=
  (all.filter fun operator => operator.spelling.toList.isPrefixOf text).foldl
    (fun best operator =>
      match best with
      | some found =>
        if found.spelling.length ≤ operator.spelling.length then some operator else best
      | none => some operator)
    none

/-- The levels in use, widest first. -/
def levels : List Nat := [10, 20, 30, 40, 50, 60]

/-- Binary operators grouped by level, widest first. -/
def binaryTiers : List (List Operator) :=
  levels.map fun level => all.filter fun operator => operator.level? == some level

theorem ofSpelling?_spelling (operator : Operator) :
    ofSpelling? operator.spelling = some operator := by
  cases operator <;> decide

end Operator

end DecisionLang
