import DecisionLang.Checking.State
import DecisionLang.Tree.ExprText

/-!
# Rules for the kinds of expressions

Each rule says what is checked about one kind of expression and in which order, and which type the
expression has. The parts of the expression are given with the checking of them, so no rule has to
know how parts are checked.
-/

namespace DecisionLang

/-- A part of an expression and the checking of it. -/
structure Part where
  expression : Expr
  check : Check (Option Ty)

/-- A branch of a switch, with its value apart. -/
structure CasePart where
  value : Option Part
  branch : Part

namespace Part

def id (part : Part) : Nat := part.expression.id

def reference (part : Part) : Reference := part.expression.reference

/-- Whether the expression is a name or a path. -/
def isTarget (part : Part) : Bool :=
  match part.expression with
  | .name .. | .path .. => true
  | _ => false

def isSpread (part : Part) : Bool :=
  match part.expression with
  | .spread _ => true
  | _ => false

/-- Checks parts for their faults and findings alone. -/
def checkAll (parts : List Part) : Check Unit := parts.forM fun part => discard part.check

/-- A part that must be of exactly one type. -/
def checkExactly (part : Part) (wanted : Ty) : Check Unit := do
  if let some type ← part.check then
    if type ≠ wanted then Check.report (.expressionType wanted type) part.reference

/-- A value for something of the given type, if that is known. -/
def checkStored (env : TypeEnv) (part : Part) (wanted? : Option Ty) : Check Unit := do
  let type? ← part.check
  if let (some wanted, some type) := (wanted?, type?) then
    Check.expectAssignable env wanted type part.reference

end Part

namespace Check

/-- A body of a branch has a scope of its own. -/
def body (parts : List Part) : Check Unit := inScope (Part.checkAll parts)

/-- A name or path: a variable in scope, or else a root declaration, and members from there. -/
def pathType? (env : TypeEnv) (mark : Mark) (path : NamePath) : Check (Option Ty) := do
  match ← resolve? env path with
  | some resolved =>
    recordVariable mark.id resolved
    return some resolved.type
  | none =>
    let hidden := (← get).scopes.contains path.root
    let type? := if hidden then none else
      (env.rootType? path.root).bind fun root => env.follow? root path.members
    if type?.isNone then report (.unknownVariable path.text) mark.reference
    return type?

def binary (env : TypeEnv) (mark : Mark) (left : Part) (operator : Operator) (right : Part) :
    Check (Option Ty) := do
  let left? ← left.check
  let right? ← right.check
  match left?, right? with
  | some left, some right =>
    let result? := env.rules.result? operator left right
    if result?.isNone then
      report (.operandTypes operator.spelling left.text right.text) mark.reference
    return result?
  | _, _ => return none

/-- Refuses something to assign to. -/
def refuseTarget (target : Part) : Check (Option Ty) := do
  report (.assignmentTarget target.expression.text) target.reference
  return none

def assignment (env : TypeEnv) (mark : Mark) (target value : Part) : Check (Option Ty) := do
  if !target.isTarget then
    let refused ← refuseTarget target
    discard value.check
    return refused
  else
    let target? ← target.check
    let value? ← value.check
    match target? with
    | none => return none
    | some wanted =>
      if ((← get).findings.resolved.find? target.id).isNone then refuseTarget target
      else
        match value? with
        | none => return none
        | some offered =>
          if !env.assignable wanted offered then
            report (.notAssignable target.expression.text wanted offered) mark.reference
          return some .void

/-- What a declaration of a variable says. -/
structure Declared where
  id : Nat
  name : String
  type : WrittenType
  reference : Reference

/-- Records and declares a variable once its type is known. -/
def introduce (declared : Declared) (origin : Origin) (type : Ty) : Check Unit := do
  recordDefinition declared.id type
  discard (declare ⟨declared.name, type, origin, declared.reference⟩)

/-- A declaration, whether in a block or in code. The default value must be assignable to the
written type. -/
def declaration (env : TypeEnv) (declared : Declared) (origin : Origin) (default : Option Part) :
    Check Unit := do
  let wanted? := env.resolve? declared.type
  if declared.type ≠ .implicit && wanted?.isNone then
    report (.unknownType declared.type.text) declared.reference
  else
    let offered? ← match default with
      | some part => part.check
      | none => pure none
    match wanted?, offered? with
    | some wanted, some offered =>
      if env.assignable wanted offered then introduce declared origin wanted
      else
        report (.expressionType wanted offered) (default.elim declared.reference Part.reference)
    | some type, none | none, some type => introduce declared origin type
    | none, none =>
      if default.isNone then report (.missingDefault declared.name) declared.reference

def condition (keyword : Keyword) (part : Part) : Check Unit := do
  if let some type ← part.check then
    if type ≠ .boolean then report (.conditionType keyword type) part.reference

/-- A branch of a switch. Its value must be of the type of the subject. -/
def case (subject? : Option Ty) (hasDefault : Bool) (item : CasePart) : Check Bool := do
  match item.value with
  | some value =>
    let value? ← value.check
    if let (some wanted, some type) := (subject?, value?) then
      if type ≠ wanted then report (.expressionType wanted type) value.reference
    discard item.branch.check
    return hasDefault
  | none =>
    if hasDefault then report .duplicateDefault item.branch.reference
    discard item.branch.check
    return true

def switch (subject : Part) (cases : List CasePart) : Check (Option Ty) := do
  let subject? ← subject.check
  discard (cases.foldlM (case subject?) false)
  return some .void

/-- A row of a table by position. -/
def indexed (env : TypeEnv) (mark : Mark) (table : String) (index : Part) : Check (Option Ty) := do
  index.checkExactly .number
  match env.rootType? table with
  | some (.table name) => return some (.generated name .row)
  | _ =>
    report (.notATable table) mark.reference
    return none

/-- One member of an object and the variable of the same name, which must exist. -/
def receiveMember (env : TypeEnv) (reference : Reference) (member : String × Ty) :
    Check Unit := do
  match (← get).scopes.find? member.1 with
  | none => report (.unknownVariable member.1) reference
  | some target =>
    if !env.assignable target.type member.2 then
      report (.notAssignable member.1 target.type member.2) reference

def spreadAssignment (env : TypeEnv) (mark : Mark) (invoked : Part) : Check (Option Ty) := do
  match ← invoked.check with
  | none => return none
  | some results =>
    if !results.isObject then
      report (.noResults invoked.expression.text) mark.reference
      return none
    else
      (env.members results).forM (receiveMember env mark.reference)
      return some .void

end Check

end DecisionLang
