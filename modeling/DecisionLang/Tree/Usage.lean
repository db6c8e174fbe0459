import DecisionLang.Tree.Expr

/-!
# Variables an expression touches

Read off the syntax alone: a name or path is read unless it is the target of an assignment, and a
declaration writes the name it declares.
-/

namespace DecisionLang

inductive Access where
  | read | write
  deriving DecidableEq

structure Usage where
  path : NamePath
  access : Access
  deriving DecidableEq

namespace Expr

mutual

/-- Usages in source order, where a name standing alone is accessed as given. -/
def usagesAs (access : Access) : Expr → List Usage
  | name _ word => [⟨NamePath.ofName word, access⟩]
  | path _ names => [⟨names, access⟩]
  | assign _ target value => usagesAs .write target ++ usagesAs .read value
  | declare _ _ declared default => ⟨NamePath.ofName declared, .write⟩ :: usagesIn? default
  | literal .. | make .. | spread _ => []
  | binary _ left _ right => usagesAs .read left ++ usagesAs .read right
  | group _ inner => usagesAs .read inner
  | indexed _ _ index => usagesAs .read index
  | extract _ object => usagesAs .read object
  | lookUp _ _ _ _ discriminator value _ _ _ => usagesIn? discriminator ++ usagesAs .read value
  | call _ _ arguments => usagesInAll arguments
  | ifThen _ condition body alternatives =>
    usagesAs .read condition ++ usagesInAll body ++ usagesInAll alternatives
  | elseIf _ condition body => usagesAs .read condition ++ usagesInAll body
  | otherwise _ body => usagesInAll body
  | switch _ subject cases => usagesAs .read subject ++ usagesInAll cases
  | case _ value body => usagesIn? value ++ usagesInAll body
  | spreadAssign _ invoked => usagesAs .read invoked

def usagesInAll : List Expr → List Usage
  | [] => []
  | expression :: rest => usagesAs .read expression ++ usagesInAll rest

def usagesIn? : Option Expr → List Usage
  | none => []
  | some expression => usagesAs .read expression

end

def usages (expression : Expr) : List Usage := expression.usagesAs .read

end Expr

end DecisionLang
