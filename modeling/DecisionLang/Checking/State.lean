import DecisionLang.Checking.Findings
import DecisionLang.Diagnostic.Fault
import DecisionLang.Diagnostic.Log
import DecisionLang.Typing.Assignable

/-!
# State of checking

Checking goes on after every fault: it logs it and yields no type, and what needs that type is not
checked, so that one mistake is reported once. Scopes and the owner of log entries are changed
only for the length of an action (`inScope`, `ownedBy`).
-/

namespace DecisionLang

structure CheckState where
  scopes : Scopes := {}
  log : Log := {}
  findings : Findings := {}

abbrev Check := StateM CheckState

namespace Check

def report (fault : Fault) (reference : Reference) : Check Unit :=
  modify fun state => { state with log := state.log.report (fault.located reference) }

/-- Logs a fault without its kind and hints. -/
def fail (fault : Fault) (reference : Reference) : Check Unit :=
  modify fun state => { state with log := state.log.fail reference fault.message }

/-- Runs an action in a scope of its own. -/
def inScope {α : Type} (action : Check α) : Check α := do
  modify fun state => { state with scopes := state.scopes.enter }
  let result ← action
  modify fun state => { state with scopes := state.scopes.leave }
  return result

/-- Attributes what an action logs to a root declaration. -/
def ownedBy {α : Type} (owner : String) (action : Check α) : Check α := do
  let previous := (← get).log.owner
  modify fun state => { state with log.owner := some owner }
  let result ← action
  modify fun state => { state with log.owner := previous }
  return result

def recordType (id : Nat) (type : Ty) : Check Unit :=
  modify fun state => { state with findings.types := state.findings.types.record id type }

def recordVariable (id : Nat) (resolved : ResolvedVariable) : Check Unit :=
  modify fun state =>
    { state with findings.resolved := state.findings.resolved.record id resolved }

def recordDefinition (id : Nat) (type : Ty) : Check Unit :=
  modify fun state =>
    { state with findings.definitions := state.findings.definitions.record id type }

/-- Declares a variable in the innermost scope, or reports that the scope has the name. -/
def declare (new : Variable) : Check Bool := do
  match (← get).scopes.declare? new with
  | some scopes =>
    modify fun state => { state with scopes }
    return true
  | none =>
    report (.redeclaredVariable new.name) new.reference
    return false

/-- Either nothing but the scopes changes, or a fault is reported. -/
theorem run_declare (new : Variable) (state : CheckState) :
    (declare new).run state = (state.scopes.declare? new).elim
      ((do
        report (.redeclaredVariable new.name) new.reference
        return false : Check Bool).run state)
      fun scopes => (true, { state with scopes }) := by
  unfold declare
  rw [StateT.run_bind, StateT.run_get, pure_bind]
  cases state.scopes.declare? new <;> rfl

/-- The variable that a path starts at, with the type at the end of the path. -/
def resolve? (env : TypeEnv) (path : NamePath) : Check (Option ResolvedVariable) := do
  let scopes := (← get).scopes
  return do
    let root ← scopes.find? path.root
    let type ← env.follow? root.type path.members
    return ⟨path, root.origin, type⟩

/-- Reports a value of the wrong type. -/
def expectAssignable (env : TypeEnv) (wanted offered : Ty) (reference : Reference) : Check Unit :=
  if env.assignable wanted offered then return ()
  else report (.expressionType wanted offered) reference

end Check

end DecisionLang
