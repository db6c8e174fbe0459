import DecisionLang.Diagnostic

/-!
# The log

Reading and checking a document never stop at a fault: each is appended to a log, attributed to
the root declaration that was current at that moment, and work goes on with the next line or
declaration.
-/

namespace DecisionLang

inductive Severity where
  | info | error
  deriving DecidableEq

structure LogEntry where
  severity : Severity
  reference : Option Reference
  message : String
  /-- Root declaration that was current when the entry was made. -/
  owner : Option String
  kind : Option ErrorKind
  hints : List String
  deriving DecidableEq

namespace LogEntry

def isError (entry : LogEntry) : Bool := entry.severity == .error

/-- The message after its place, or alone if it has none. -/
def locatedMessage (entry : LogEntry) : String :=
  match entry.reference with
  | some reference => s!"{reference.text}: {entry.message}"
  | none => entry.message

def text (entry : LogEntry) : String :=
  let severity := match entry.severity with
    | .info => "INFO"
    | .error => "ERROR"
  s!"{severity} - {entry.locatedMessage}"

end LogEntry

/-- Entries in the order they were made, and the root declaration new ones are attributed to. -/
structure Log where
  entries : List LogEntry := []
  owner : Option String := none
  deriving DecidableEq

namespace Log

def add (log : Log) (severity : Severity) (reference : Option Reference) (message : String)
    (kind : Option ErrorKind) (hints : List String) : Log :=
  { log with
    entries := log.entries ++ [⟨severity, reference, message, log.owner, kind, hints⟩] }

def note (log : Log) (reference : Option Reference) (message : String) : Log :=
  log.add .info reference message none []

/-- An error without a kind. -/
def fail (log : Log) (reference : Reference) (message : String) : Log :=
  log.add .error (some reference) message none []

/-- An error without a place. -/
def failUnlocated (log : Log) (message : String) : Log :=
  log.add .error none message none []

def report (log : Log) (diagnostic : Diagnostic) : Log :=
  log.add .error (some diagnostic.reference) diagnostic.message (some diagnostic.kind)
    diagnostic.hints

/-- Reports on behalf of another owner; the current one stays. -/
def reportFor (log : Log) (owner : Option String) (diagnostic : Diagnostic) : Log :=
  { ({ log with owner } : Log).report diagnostic with owner := log.owner }

def errors (log : Log) : List LogEntry := log.entries.filter LogEntry.isError

def hasErrors (log : Log) : Bool := log.entries.any LogEntry.isError

def errorMessages (log : Log) : List String := log.errors.map LogEntry.locatedMessage

/-- Errors attributed to an owner; none stands for errors outside all declarations. -/
def errorsOf (log : Log) (owner : Option String) : List LogEntry :=
  log.errors.filter fun entry => entry.owner == owner

def messagesOf (log : Log) (owner : Option String) : List String :=
  (log.errorsOf owner).map LogEntry.locatedMessage

def text (log : Log) : String := "\n".intercalate (log.entries.map LogEntry.text)

@[simp] theorem owner_report (log : Log) (diagnostic : Diagnostic) :
    (log.report diagnostic).owner = log.owner := rfl

@[simp] theorem owner_reportFor (log : Log) (owner : Option String) (diagnostic : Diagnostic) :
    (log.reportFor owner diagnostic).owner = log.owner := rfl

end Log

end DecisionLang
