import DecisionLang.Tree.Declaration

/-!
# Documents

A document is its root declarations in source order, those of included files after them, together
with its include directives and comment lines. Names are meant to be unique; where they are not, a
name means the first declaration that has it.
-/

namespace DecisionLang

structure Inclusion where
  fileName : String
  reference : Reference
  processed : Bool

/-- A line with a comment and nothing else. -/
structure Comment where
  text : String
  reference : Reference

structure Document where
  declarations : List Declaration := []
  inclusions : List Inclusion := []
  comments : List Comment := []

namespace Document

def find? (document : Document) (name : String) : Option Declaration :=
  document.declarations.find? fun declaration => declaration.name == name

def function? (document : Document) (name : String) : Option FunctionDecl :=
  document.declarations.findSome? fun
    | .function decl => if decl.name = name then some decl else none
    | _ => none

def enumeration? (document : Document) (name : String) : Option EnumDecl :=
  document.declarations.findSome? fun
    | .enumeration decl => if decl.name = name then some decl else none
    | _ => none

def table? (document : Document) (name : String) : Option TableDecl :=
  document.declarations.findSome? fun
    | .table decl => if decl.name = name then some decl else none
    | _ => none

def record? (document : Document) (name : String) : Option RecordDecl :=
  document.declarations.findSome? fun
    | .record decl => if decl.name = name then some decl else none
    | _ => none

def scenario? (document : Document) (name : String) : Option ScenarioDecl :=
  document.declarations.findSome? fun
    | .scenario decl => if decl.name = name then some decl else none
    | _ => none

def scenarios (document : Document) : List ScenarioDecl :=
  document.declarations.filterMap fun
    | .scenario decl => some decl
    | _ => none

def names (document : Document) : List String := document.declarations.map Declaration.name

end Document

end DecisionLang
