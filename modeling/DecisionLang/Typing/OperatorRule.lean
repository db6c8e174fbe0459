import DecisionLang.Typing.Ty
import DecisionLang.Vocabulary.Operator

/-!
# Operator rules

The binary operators that make sense are listed: a rule has an operator, what it accepts on either
side, and the type of the result. Operands can be of any enumeration, but then both must be of the
same one.
-/

namespace DecisionLang

/-- What a rule accepts on one side of an operator. -/
inductive OperandPattern where
  | primitive (kind : Primitive)
  | anyEnumeration
  deriving DecidableEq

namespace OperandPattern

def accepts (pattern : OperandPattern) (operand : Ty) : Bool :=
  match pattern with
  | primitive kind => operand.primitive? == some kind
  | anyEnumeration => operand.isEnumeration

end OperandPattern

structure OperatorRule where
  operator : Operator
  left : OperandPattern
  right : OperandPattern
  result : Primitive
  deriving DecidableEq

namespace OperatorRule

/-- A rule with the same primitive type on both sides. -/
def same (operator : Operator) (operand result : Primitive) : OperatorRule :=
  ⟨operator, .primitive operand, .primitive operand, result⟩

def accepts (rule : OperatorRule) (operator : Operator) (left right : Ty) : Bool :=
  rule.operator == operator && rule.left.accepts left && rule.right.accepts right &&
    (!(rule.left == .anyEnumeration || rule.right == .anyEnumeration) || left == right)

end OperatorRule

/-- Rules in the order they are tried. -/
abbrev OperatorRules := List OperatorRule

namespace OperatorRules

def arithmetic : OperatorRules :=
  [.addition, .subtraction, .multiplication, .division, .modulus].map fun operator =>
    .same operator .number .number

/-- Texts are added to texts and numbers to texts; the difference of two dates is a number. -/
def mixed : OperatorRules :=
  [.same .addition .string .string,
    ⟨.addition, .primitive .string, .primitive .number, .string⟩,
    .same .subtraction .date .number]

def comparison : OperatorRules :=
  [.greaterThan, .greaterThanOrEqual, .lessThan, .lessThanOrEqual].flatMap fun operator =>
    [Primitive.number, .date].map fun operand => .same operator operand .boolean

def equality : OperatorRules :=
  [.equals, .notEqual].flatMap fun operator =>
    Primitive.all.map (fun operand => .same operator operand .boolean) ++
      [⟨operator, .anyEnumeration, .anyEnumeration, .boolean⟩]

def logic : OperatorRules :=
  [.and, .or].map fun operator => .same operator .boolean .boolean

/-- The rules of the language. -/
def standard : OperatorRules := arithmetic ++ mixed ++ comparison ++ equality ++ logic

/-- Type of the result, by the first rule that accepts the operands. -/
def result? (rules : OperatorRules) (operator : Operator) (left right : Ty) : Option Ty :=
  (rules.find? fun rule => rule.accepts operator left right).map fun rule => .primitive rule.result

end OperatorRules

end DecisionLang
