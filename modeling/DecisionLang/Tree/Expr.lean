import DecisionLang.Diagnostic
import DecisionLang.Token
import DecisionLang.Tree.NamePath
import DecisionLang.Vocabulary.Builtin

/-!
# Expressions

An expression is what one line of code says, statements included; block expressions also hold the
lines indented below them. Every expression has a number, unique within one reading of a document,
under which later stages record what they find out about it.
-/

namespace DecisionLang

/-- A type as written. -/
inductive WrittenType where
  | primitive (kind : Primitive)
  /-- The type is taken from the default value. -/
  | implicit
  | named (path : NamePath)
  deriving DecidableEq

namespace WrittenType

def text : WrittenType → String
  | primitive kind => kind.spelling
  | implicit => Keyword.var.spelling
  | named path => path.text

/-- A single token read as a type. -/
def ofToken? (token : Token) : Option WrittenType :=
  match token.kind with
  | .word text =>
    if text = Keyword.var.spelling then some implicit
    else
      match Primitive.ofSpelling? text with
      | some kind => some (primitive kind)
      | none => token.name?.map fun name => named (NamePath.ofName name)
  | .path parts => some (named (NamePath.ofParts parts))
  | _ => none

end WrittenType

inductive Literal where
  | number (value : Number)
  | text (value : String)
  | boolean (value : Bool)
  | moment (value : Moment)
  deriving DecidableEq

namespace Literal

def ofToken? (token : Token) : Option Literal :=
  match token.kind with
  | .number value => some (number value)
  | .quoted value => some (text value)
  | .boolean value => some (boolean value)
  | .moment value => some (moment value)
  | _ => none

/-- The token kind that a literal is written as. -/
def toKind : Literal → TokenKind
  | number value => .number value
  | text value => .quoted value
  | boolean value => .boolean value
  | moment value => .moment value

def primitive : Literal → Primitive
  | number _ => .number
  | text _ => .string
  | boolean _ => .boolean
  | moment _ => .date

end Literal

/-- Number and place of an expression. -/
structure Mark where
  id : Nat
  reference : Reference
  deriving DecidableEq

/-- A column of a table, as an argument of a table function. -/
structure ColumnName where
  table : String
  column : String
  reference : Reference
  deriving DecidableEq

namespace ColumnName

def text (name : ColumnName) : String := name.table ++ "." ++ name.column

end ColumnName

/-- Ways to make an object of a type: with default values, or from variables of the same names. -/
inductive Making where
  | new | fill
  deriving DecidableEq

namespace Making

def function : Making → ObjectFunction
  | new => .new
  | fill => .fill

end Making

inductive Expr where
  | literal (mark : Mark) (value : Literal)
  | name (mark : Mark) (word : String)
  | path (mark : Mark) (names : NamePath)
  | binary (mark : Mark) (left : Expr) (operator : Operator) (right : Expr)
  | assign (mark : Mark) (target value : Expr)
  | declare (mark : Mark) (type : WrittenType) (name : String) (default : Option Expr)
  | group (mark : Mark) (inner : Expr)
  /-- A row of a table by position. -/
  | indexed (mark : Mark) (table : String) (index : Expr)
  | make (mark : Mark) (making : Making) (type : NamePath) (typeReference : Reference)
  /-- Copies the members of an object into variables of the same names. -/
  | extract (mark : Mark) (object : Expr)
  | lookUp (mark : Mark) (function : TableFunction) (table : String) (tableReference : Reference)
      (discriminator : Option Expr) (value : Expr) (discriminatorColumn : Option ColumnName)
      (searchColumn : ColumnName) (resultColumn : Option ColumnName)
  /-- A declared function or, failing that, a library function. -/
  | call (mark : Mark) (function : String) (arguments : List Expr)
  /-- The alternatives are branches of the two kinds below. -/
  | ifThen (mark : Mark) (condition : Expr) (body alternatives : List Expr)
  | elseIf (mark : Mark) (condition : Expr) (body : List Expr)
  | otherwise (mark : Mark) (body : List Expr)
  | switch (mark : Mark) (subject : Expr) (cases : List Expr)
  /-- Without a value, the branch for all other values. -/
  | case (mark : Mark) (value : Option Expr) (body : List Expr)
  /-- Three points as an argument: the variables of the same names as the parameters. -/
  | spread (mark : Mark)
  /-- Every result of the call goes to the variable of the same name. -/
  | spreadAssign (mark : Mark) (invoked : Expr)

namespace Expr

def mark : Expr → Mark
  | literal place _ | name place _ | path place _ | binary place .. | assign place ..
  | declare place .. | group place _ | indexed place .. | make place .. | extract place _
  | lookUp place .. | call place .. | ifThen place .. | elseIf place .. | otherwise place _
  | switch place .. | case place .. | spread place | spreadAssign place _ => place

def id (expression : Expr) : Nat := expression.mark.id

def reference (expression : Expr) : Reference := expression.mark.reference

/-- Block expressions take the lines indented below them. -/
def isBlock : Expr → Bool
  | ifThen .. | elseIf .. | otherwise .. | switch .. | case .. => true
  | _ => false

/-- Direct parts in source order, those of bodies included. -/
def children : Expr → List Expr
  | literal .. | name .. | path .. | make .. | spread _ => []
  | binary _ left _ right => [left, right]
  | assign _ target value => [target, value]
  | declare _ _ _ default => default.toList
  | group _ inner => [inner]
  | indexed _ _ index => [index]
  | extract _ object => [object]
  | lookUp _ _ _ _ discriminator value _ _ _ => discriminator.toList ++ [value]
  | call _ _ arguments => arguments
  | ifThen _ condition body alternatives => condition :: body ++ alternatives
  | elseIf _ condition body => condition :: body
  | otherwise _ body => body
  | switch _ subject cases => subject :: cases
  | case _ value body => value.toList ++ body
  | spreadAssign _ invoked => [invoked]

/-- Name of the function that a call names, whatever its family. -/
def calledFunction? : Expr → Option String
  | make _ making _ _ => some making.function.spelling
  | extract .. => some ObjectFunction.extract.spelling
  | lookUp _ function .. => some function.spelling
  | call _ function _ => some function
  | _ => none

end Expr

end DecisionLang
