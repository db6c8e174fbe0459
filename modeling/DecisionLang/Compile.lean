import DecisionLang.Checking.Declaration
import DecisionLang.Dependency.Order
import DecisionLang.Expectation
import DecisionLang.Reading.Inclusion

/-!
# Compiling documents

A document is read, its declarations are ordered, and they are checked in that order. All faults
end up in one log; whether a log with errors is a failure is up to the options.

The language gives no meaning to checking a document with a chain of columns that comes back
(`TypeEnv.isSettled` tells); it is checked as if the columns of the chain had no type.
-/

namespace DecisionLang

structure CompileOptions where
  reading : ReadOptions := {}
  /-- Check the declarations once they are read. -/
  checks : Bool := true
  /-- Hand out what was compiled even if errors were logged. -/
  tolerant : Bool := false

/-- The language: how expressions are read and which operators make sense. -/
structure Dialect where
  grammar : Grammar := Grammar.standard
  rules : OperatorRules := OperatorRules.standard

structure Compiled where
  document : Document
  log : Log
  nextId : Nat
  graph : DependencyGraph
  findings : Findings

/-- Why a document was not compiled. -/
inductive CompileFailure where
  | unreadable (file reason : String)
  | inclusion (file : String) (messages : List String)
  | circular (file : String) (names : List String)
  | failed (file : String) (messages : List String)
  deriving DecidableEq

namespace CompileFailure

def message : CompileFailure → String
  | unreadable file reason => s!"could not read '{file}': {reason}"
  | inclusion file messages =>
    let list := "\n".intercalate messages
    s!"could not resolve includes of '{file}':\n{list}"
  | circular file names =>
    let list := ", ".intercalate names
    s!"circular reference detected in '{file}': {list}"
  | failed file messages =>
    let count := messages.length
    let list := "\n".intercalate messages
    s!"parsing '{file}' failed with {count} error(s):\n{list}"

def file : CompileFailure → String
  | unreadable file _ | inclusion file _ | circular file _ | failed file _ => file

/-- The messages or names that the failure lists. -/
def details : CompileFailure → List String
  | unreadable _ _ => []
  | inclusion _ messages | failed _ messages => messages
  | circular _ names => names

def code : CompileFailure → String
  | unreadable .. => "lexy::parse::io"
  | inclusion .. => "lexy::parse::include"
  | circular .. => "lexy::parse::circular"
  | failed .. => "lexy::parse::failed"

def help? : CompileFailure → Option String
  | circular .. => some "break the cycle so declarations can be ordered"
  | _ => none

end CompileFailure

namespace Compiled

/-- The declarations with the given indices. -/
def declarations (compiled : Compiled) (indices : List Nat) : List Declaration :=
  indices.filterMap (compiled.document.declarations[·]?)

/-- All declarations, dependencies first; none if there are cycles. -/
def sorted? (compiled : Compiled) : Option (List Declaration) :=
  compiled.graph.sorted?.map compiled.declarations

/-- The first declaration with a name and its dependencies. -/
def around? (compiled : Compiled) (name : String) : Option (List Declaration) :=
  (compiled.graph.around? name).map compiled.declarations

/-- Outcomes of the scenarios by name. A repeated name stands where it stands first and has the
outcome of the last scenario with it. -/
def outcomes (compiled : Compiled) : List (String × ScenarioOutcome) :=
  let all := compiled.document.scenarios.map fun decl => (decl.name, decl.outcome compiled.log)
  (all.map Prod.fst).eraseDups.filterMap fun name => all.reverse.find? fun item => item.1 == name

/-- What went wrong, as far as anything did: inclusions first, then cycles, then all the rest. -/
def failure? (compiled : Compiled) (file : String) : Option CompileFailure :=
  let inclusions := compiled.log.errors.filter fun entry => entry.kind == some .inclusion
  if !compiled.log.hasErrors then none
  else if !inclusions.isEmpty then
    some (.inclusion file (inclusions.map LogEntry.locatedMessage))
  else if compiled.graph.isCircular then some (.circular file compiled.graph.circular)
  else some (.failed file compiled.log.errorMessages)

/-- Orders and checks a document that has been read. -/
def ofProgress (rules : OperatorRules) (checks : Bool) (progress : Progress) : Compiled :=
  let document := progress.document
  let graph := DependencyGraph.ofDocument document
  let log := graph.reportCircular document progress.log
  let (findings, log) :=
    if checks then TypeEnv.check ⟨document, rules⟩ graph.checkOrder log else ({}, log)
  ⟨document, log, progress.nextId, graph, findings⟩

end Compiled

namespace Progress

/-- Finishes compiling a document that has been read. -/
def compile (progress : Progress) (dialect : Dialect) (options : CompileOptions) (file : String) :
    Except CompileFailure Compiled :=
  let compiled := Compiled.ofProgress dialect.rules options.checks progress
  match compiled.failure? file with
  | some failure => if options.tolerant then .ok compiled else .error failure
  | none => .ok compiled

end Progress

namespace Dialect

/-- Compiles lines alone; inclusions are noted and not followed. -/
def compileLines (dialect : Dialect) (options : CompileOptions) (file : String)
    (lines : List String) : Except CompileFailure Compiled :=
  (({} : Progress).readSource dialect.grammar options.reading.indentWidth file lines).compile
    dialect options file

/-- Compiles lines and the files that they include. -/
def compileIncluding (dialect : Dialect) (options : CompileOptions) (files : FileSystem)
    (file : String) (lines : List String) : Except CompileFailure Compiled :=
  (Progress.readIncluding dialect.grammar options.reading files file lines).compile dialect options
    file

/-- Compiles a file and the files that it includes. A file that cannot be read is a failure,
whatever the options say. -/
def compileNamed (dialect : Dialect) (options : CompileOptions) (files : FileSystem)
    (file : String) : Except CompileFailure Compiled :=
  match files.readLines ⟨file⟩ with
  | .ok lines => dialect.compileIncluding options files file lines
  | .error reason => .error (.unreadable file reason)

end Dialect

end DecisionLang
