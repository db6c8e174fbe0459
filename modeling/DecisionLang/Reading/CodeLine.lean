import DecisionLang.Reading.Receiver
import DecisionLang.Reading.Received
import DecisionLang.Tree.ExprText

/-!
# Lines of code

The branches `elseif` and `else` are lines of their own, but become alternatives of the `if`
before them in the same body, so that a chain of branches is one expression. The branches `case`
and `default` stand directly below a `switch` and nowhere else.
-/

namespace DecisionLang

namespace Expr

def isOtherwise : Expr → Bool
  | otherwise .. => true
  | _ => false

end Expr

namespace CodeLine

/-- Adds an alternative to the chain of branches that ends a body. -/
def attach (body : List Expr) (keyword : Keyword) (alternative : Expr) :
    Except Diagnostic (Received (List Expr)) :=
  match body.getLast? with
  | some (.ifThen mark condition lines alternatives) =>
    if alternatives.getLast?.any Expr.isOtherwise then
      .error ((Fault.branchAfterElse keyword).located alternative.reference)
    else
      .ok (.child
        (body.dropLast ++ [.ifThen mark condition lines (alternatives ++ [alternative])])
        [body.length - 1, alternatives.length + 1])
  | _ => .error ((Fault.alternativeWithoutIf keyword).located alternative.reference)

/-- Adds an expression to a body. -/
def add (body : List Expr) (expression : Expr) : Except Diagnostic (Received (List Expr)) :=
  match expression with
  | .elseIf .. => attach body .elseIfBranch expression
  | .otherwise .. => attach body .elseBranch expression
  | .case _ value _ =>
    let keyword := if value.isSome then .case else .default
    .error ((Fault.caseOutsideSwitch keyword).located expression.reference)
  | _ =>
    if expression.isBlock then .ok (.child (body ++ [expression]) [body.length])
    else .ok (.leaf (body ++ [expression]))

/-- Adds an expression to the cases of a switch. -/
def addCase (cases : List Expr) (expression : Expr) : Except Diagnostic (Received (List Expr)) :=
  match expression with
  | .case .. => .ok (.child (cases ++ [expression]) [cases.length])
  | _ => .error (Fault.caseExpected.located expression.reference)

/-- A body after a line. -/
def receive (grammar : Grammar) (line : Line) (body : List Expr) :
    Numbered (Received (List Expr)) := do
  let expression ← grammar.readLine line
  MonadExcept.ofExcept (add body expression)

/-- An expression after a line below it. -/
def receiveBelow (grammar : Grammar) (line : Line) (expression : Expr) :
    Numbered (Received Expr) :=
  match expression.body?, expression with
  | some body, expression => do
    let received ← receive grammar line body
    return (received.map (expression.withBody ·)).within 0
  | none, .switch mark subject cases => do
    let branch ← grammar.readLine line
    let received ← MonadExcept.ofExcept (addCase cases branch)
    return received.map (.switch mark subject)
  | none, expression => line.refuse (.noBody expression.text)

end CodeLine

end DecisionLang
