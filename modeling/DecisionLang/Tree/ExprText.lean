import DecisionLang.Tree.Expr

/-!
# Text of expressions

Binary expressions are always written with parentheses, so an explicit group around one is not
written twice. Block expressions are written without their bodies.
-/

namespace DecisionLang

def Literal.written (literal : Literal) : String := literal.toKind.text

namespace Expr

def isBinary : Expr → Bool
  | binary .. => true
  | _ => false

mutual

def text : Expr → String
  | literal _ value => value.written
  | name _ word => word
  | path _ names => names.text
  | binary _ left operator right => s!"({left.text} {operator.spelling} {right.text})"
  | assign _ target value => s!"{target.text} = {value.text}"
  | declare _ type declared default =>
    match texts? default with
    | some value => s!"{type.text} {declared} = {value}"
    | none => s!"{type.text} {declared}"
  | group _ inner => if inner.isBinary then inner.text else s!"({inner.text})"
  | indexed _ table index => s!"{table}[{index.text}]"
  | make _ making type _ => s!"{making.function.spelling}({type.text})"
  | extract _ object => s!"{ObjectFunction.extract.spelling}({object.text})"
  | lookUp _ function table _ discriminator value discriminatorColumn searchColumn resultColumn =>
    let arguments := [table] ++ (texts? discriminator).toList ++ [value.text] ++
      (discriminatorColumn.map ColumnName.text).toList ++ [searchColumn.text] ++
      (resultColumn.map ColumnName.text).toList
    let list := ", ".intercalate arguments
    s!"{function.spelling}({list})"
  | call _ function arguments =>
    let list := ", ".intercalate (texts arguments)
    s!"{function}({list})"
  | ifThen _ condition _ _ => s!"if {condition.text}"
  | elseIf _ condition _ => s!"elseif {condition.text}"
  | otherwise .. => "else"
  | switch _ subject _ => s!"switch {subject.text}"
  | case _ value _ =>
    match texts? value with
    | some value => s!"case {value}"
    | none => "default"
  | spread _ => "..."
  | spreadAssign _ invoked => s!"... = {invoked.text}"

def texts : List Expr → List String
  | [] => []
  | expression :: rest => expression.text :: texts rest

def texts? : Option Expr → Option String
  | none => none
  | some expression => some expression.text

end

end Expr

end DecisionLang
