import DecisionLang.Diagnostic.Log
import DecisionLang.Tree.Declaration

/-!
# Expected errors of scenarios

A scenario can expect that compiling its document fails: each of its expectations is a list of
fragments, and every fragment must occur in the message of some logged error that the expectation
is about. A scenario whose expectations are met has succeeded, and nothing is left to run.
Expectations about running a scenario are left to whoever runs it.
-/

namespace DecisionLang

namespace Text

/-- Whether a text contains another one. -/
def occurs (part : List Char) : List Char → Bool
  | [] => part.isEmpty
  | c :: cs => part.isPrefixOf (c :: cs) || occurs part cs

theorem occurs_iff (part whole : List Char) : occurs part whole = true ↔ part <:+: whole := by
  induction whole with
  | nil => simp [occurs]
  | cons c cs ih => simp [occurs, ih, List.infix_cons_iff]

end Text

inductive ScenarioOutcome where
  /-- Nothing was expected to fail, and nothing of the scenario did. -/
  | run
  /-- Every expected error was logged. -/
  | matched
  | unmatched (messages : List String)
  deriving DecidableEq

namespace ScenarioOutcome

def isSuccess : ScenarioOutcome → Bool
  | unmatched _ => false
  | run | matched => true

/-- Whether the scenario is still to be run. -/
def isToRun : ScenarioOutcome → Bool
  | run => true
  | matched | unmatched _ => false

end ScenarioOutcome

namespace ExpectationKind

/-- Whether an error is one that an expectation of a scenario is about. -/
def covers (kind : ExpectationKind) (scenario : String) (entry : LogEntry) : Bool :=
  match kind with
  | error => entry.owner == some scenario
  | errors => true
  | componentErrors => entry.owner.any (· != scenario)
  | executionErrors => false

end ExpectationKind

namespace ExpectedErrors

/-- Expectations about compiling, as against running. -/
def isAboutCompiling (block : ExpectedErrors) : Bool := block.kind != .executionErrors

/-- Whether a fragment occurs in an error that the block is about. -/
def isMet (block : ExpectedErrors) (scenario : String) (log : Log) (fragment : String) : Bool :=
  (log.errors.filter (block.kind.covers scenario)).any fun entry =>
    Text.occurs fragment.toList entry.message.toList

/-- A message for each fragment that was not logged. -/
def missing (block : ExpectedErrors) (scenario : String) (log : Log) : List String :=
  (block.messages.filter (!block.isMet scenario log ·)).map fun fragment =>
    s!"{block.reference.text}: expected error containing '{fragment}' was not logged."

end ExpectedErrors

namespace ScenarioDecl

def compileExpectations (decl : ScenarioDecl) : List ExpectedErrors :=
  decl.expectations.filter ExpectedErrors.isAboutCompiling

def expectsErrors (decl : ScenarioDecl) : Bool := !decl.compileExpectations.isEmpty

/-- The outcome of a scenario by what was logged. -/
def outcome (decl : ScenarioDecl) (log : Log) : ScenarioOutcome :=
  if decl.expectsErrors then
    let missing := decl.compileExpectations.flatMap fun block => block.missing decl.name log
    if missing.isEmpty then .matched else .unmatched missing
  else
    let own := log.messagesOf (some decl.name)
    if own.isEmpty then .run else .unmatched own

end ScenarioDecl

end DecisionLang
