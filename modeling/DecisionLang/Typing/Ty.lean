import DecisionLang.Vocabulary.Builtin

/-!
# Types

Types are nominal: declared types are told apart by name, generated ones by the declaration they
belong to and the part of it they describe. Declared and generated types are the object types:
their values have members.
-/

namespace DecisionLang

inductive Ty where
  | primitive (kind : Primitive)
  | enumeration (name : String)
  /-- A table named as such, not one of its rows. -/
  | table (name : String)
  /-- A declared record type. -/
  | record (name : String)
  | generated (owner : String) (part : GeneratedPart)
  /-- A function named as such, the owner of its parameters and results. -/
  | function (name : String)
  /-- Statements have no value. -/
  | void
  deriving DecidableEq

namespace Ty

def number : Ty := primitive .number

def boolean : Ty := primitive .boolean

def text : Ty → String
  | primitive kind => kind.spelling
  | enumeration name | table name | record name | function name => name
  | generated owner part => owner ++ "." ++ part.member
  | void => "void"

def primitive? : Ty → Option Primitive
  | primitive kind => some kind
  | _ => none

/-- Values of object types have members. -/
def isObject : Ty → Bool
  | record _ | generated _ _ => true
  | _ => false

def isEnumeration : Ty → Bool
  | enumeration _ => true
  | _ => false

/-- A type that can be written as a name on its own. -/
def isNameable : Ty → Bool
  | enumeration _ | record _ => true
  | _ => false

end Ty

end DecisionLang
