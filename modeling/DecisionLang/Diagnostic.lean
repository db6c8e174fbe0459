/-!
# Diagnostics

A diagnostic is a located message of some kind, with hints on how to mend the fault. Lines and
columns count from one, columns in characters.
-/

namespace DecisionLang

/-- A place in a source. -/
structure Reference where
  file : String
  line : Nat
  column : Nat
  deriving DecidableEq

namespace Reference

def text (reference : Reference) : String :=
  s!"{reference.file}({reference.line}, {reference.column})"

/-- Another column of the same line. -/
def atColumn (reference : Reference) (column : Nat) : Reference :=
  { reference with column }

end Reference

/-- Stage of the language that a diagnostic is about. -/
inductive ErrorKind where
  | lexical | indentation | grammar | semantic | type | dependency | inclusion
  deriving DecidableEq

namespace ErrorKind

def all : List ErrorKind :=
  [lexical, indentation, grammar, semantic, type, dependency, inclusion]

/-- Stable short code. -/
def code : ErrorKind → String
  | lexical => "lexical"
  | indentation => "indentation"
  | grammar => "grammar"
  | semantic => "semantic"
  | type => "type"
  | dependency => "dependency"
  | inclusion => "include"

def text (kind : ErrorKind) : String := kind.code ++ " error"

/-- Name of the kind among the codes of all tools of the language. -/
def qualifiedCode (kind : ErrorKind) : String := "lexy::" ++ kind.code

def ofCode? (code : String) : Option ErrorKind :=
  all.find? fun kind => kind.code == code

end ErrorKind

structure Diagnostic where
  kind : ErrorKind
  message : String
  reference : Reference
  hints : List String := []
  deriving DecidableEq

namespace Diagnostic

def text (diagnostic : Diagnostic) : String :=
  s!"{diagnostic.reference.text}: {diagnostic.message}"

def withHint (diagnostic : Diagnostic) (hint : String) : Diagnostic :=
  { diagnostic with hints := diagnostic.hints ++ [hint] }

/-- The hints as one text, if there are any. -/
def help? (diagnostic : Diagnostic) : Option String :=
  if diagnostic.hints.isEmpty then none else some ("\n".intercalate diagnostic.hints)

end Diagnostic

end DecisionLang
