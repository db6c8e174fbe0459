import DecisionLang.Grammar.Shape
import DecisionLang.Line

/-!
# Reading expressions

`Grammar.read` turns the tokens of a line, or a run of them, into an expression. The first rule
that recognizes a shape decides: if reading its parts fails, so does the whole, and no other rule
is tried. Expressions are numbered in the order they are completed, parts before what they are part
of; numbers used by a reading that fails later are not handed out again.
-/

namespace DecisionLang

/-- Rules in the order they are tried, and the tiers that binary expressions are split by. -/
structure Grammar where
  rules : List Rule
  tiers : Tiers

/-- Reading with a supply of expression numbers, which a failure does not take back. -/
abbrev Numbered := ExceptT Diagnostic (StateM Nat)

namespace Numbered

/-- The next expression number, at a token of a line. -/
def mark (line : Line) (token : Token) : Numbered Mark := do
  let id ← get
  set (id + 1)
  return ⟨id, line.tokenReference token⟩

def fail {α : Type} (line : Line) (token : Token) (fault : Fault) : Numbered α :=
  throw (fault.located (line.tokenReference token))

end Numbered

namespace Shape

open Numbered

/-- A branch with its decision read and no lines below it yet. -/
def branchOf (branch : Branch) (mark : Mark) (subject : Expr) : Expr :=
  match branch with
  | .ifThen => .ifThen mark subject [] []
  | .elseIf => .elseIf mark subject []
  | .switch => .switch mark subject []
  | .case => .case mark (some subject) []

def fallbackOf (fallback : Fallback) (mark : Mark) : Expr :=
  match fallback with
  | .otherwise => .otherwise mark []
  | .default => .case mark none []

def missingSubject : Branch → Fault
  | .case => .missingCaseValue
  | other => .missingCondition other.keyword

def targetOf (target : Target) (mark : Mark) : Expr :=
  match target with
  | .name word => .name mark word
  | .path names => .path mark names

/-- Fault of a built-in function whose arguments do not have its form. -/
def argumentsFault (spelling usage : String) : Fault :=
  .wrongForm s!"'{spelling}' function arguments" usage

/-- A type named by a single token. -/
def typePath? (argument : List Token) : Option (Token × NamePath) :=
  match argument with
  | [token] =>
    match token.path? with
    | some parts => some (token, NamePath.ofParts parts)
    | none => token.name?.map fun name => (token, NamePath.ofName name)
  | _ => none

def columnName (line : Line) (usage : String) (argument : List Token) : Numbered ColumnName :=
  match argument with
  | [] => throw ((Fault.missingColumnArgument usage).located line.start)
  | first :: rest =>
    match rest, first.path? with
    | [], some [table, column] => return ⟨table, column, line.tokenReference first⟩
    | _, _ => fail line first (.columnArgument (Token.describe argument) usage)

/-- Arguments of a table function by their role, in the order they are read. -/
structure LookUp where
  table : List Token
  /-- The discriminator's value and column. -/
  discriminator : Option (Numbered Expr × List Token)
  value : Numbered Expr
  searchColumn : List Token
  resultColumn : Option (List Token)

/-- Reads the arguments of a table function and builds the call. -/
def LookUp.read (arguments : LookUp) (line : Line) (first : Token) (function : TableFunction) :
    Numbered Expr := do
  let invalid := argumentsFault function.spelling function.usage
  match arguments.table with
  | [token] =>
    match token.name? with
    | none => fail line first invalid
    | some table =>
      let column := columnName line function.usage
      let discriminator ← arguments.discriminator.mapM Prod.fst
      let value ← arguments.value
      let discriminatorColumn ← arguments.discriminator.mapM fun pair => column pair.2
      let searchColumn ← column arguments.searchColumn
      let resultColumn ← arguments.resultColumn.mapM column
      return .lookUp (← mark line first) function table (line.tokenReference token) discriminator
        value discriminatorColumn searchColumn resultColumn
  | _ => fail line first invalid

/-- Reads an argument that is an expression. -/
def readArgument (line : Line) (first : Token) (tokens argument : List Token)
    (recur : Numbered Expr) : Numbered Expr :=
  if argument.isEmpty then fail line first (.emptyArgument (Token.describe tokens)) else recur

def readLookUp (line : Line) (first : Token) (tokens : List Token) (function : TableFunction)
    (arguments : List (List Token))
    (recur : (part : List Token) → part ∈ arguments → Numbered Expr) : Numbered Expr :=
  let argument (part : List Token) (h : part ∈ arguments) : Numbered Expr :=
    readArgument line first tokens part (recur part h)
  match harguments : arguments, function.hasDiscriminator, function.returnsRow with
  | [table, value, search, result], false, false =>
    LookUp.read ⟨table, none, argument value (by simp [harguments]), search, some result⟩
      line first function
  | [table, value, search], false, true =>
    LookUp.read ⟨table, none, argument value (by simp [harguments]), search, none⟩
      line first function
  | [table, discriminator, value, column, search, result], true, false =>
    LookUp.read ⟨table, some (argument discriminator (by simp [harguments]), column),
      argument value (by simp [harguments]), search, some result⟩ line first function
  | [table, discriminator, value, column, search], true, true =>
    LookUp.read ⟨table, some (argument discriminator (by simp [harguments]), column),
      argument value (by simp [harguments]), search, none⟩ line first function
  | _, _, _ => fail line first (argumentsFault function.spelling function.usage)

def readMake (line : Line) (first : Token) (making : Making) (arguments : List (List Token)) :
    Numbered Expr := do
  let function := making.function
  match arguments with
  | [argument] =>
    match typePath? argument with
    | some (token, type) =>
      return .make (← mark line first) making type (line.tokenReference token)
    | none => fail line first (argumentsFault function.spelling function.usage)
  | _ => fail line first (argumentsFault function.spelling function.usage)

def readExtract (line : Line) (first : Token) (tokens : List Token)
    (arguments : List (List Token))
    (recur : (part : List Token) → part ∈ arguments → Numbered Expr) : Numbered Expr := do
  match harguments : arguments with
  | [argument] =>
    let object ← readArgument line first tokens argument (recur argument (by simp [harguments]))
    return .extract (← mark line first) object
  | _ =>
    fail line first
      (argumentsFault ObjectFunction.extract.spelling ObjectFunction.extract.usage)

/-- A call by the family its function belongs to. -/
def readCall (line : Line) (first : Token) (function : String) (tokens : List Token)
    (arguments : List (List Token))
    (recur : (part : List Token) → part ∈ arguments → Numbered Expr) : Numbered Expr :=
  match ObjectFunction.ofSpelling? function with
  | some .new => readMake line first .new arguments
  | some .fill => readMake line first .fill arguments
  | some .extract => readExtract line first tokens arguments recur
  | none =>
    match TableFunction.ofSpelling? function with
    | some tableFunction => readLookUp line first tokens tableFunction arguments recur
    | none => do
      let values ← arguments.attach.mapM fun ⟨part, h⟩ =>
        readArgument line first tokens part (recur part h)
      return .call (← mark line first) function values

/-- Reads the parts of a shape and builds the expression. -/
def read (line : Line) (shape : Shape)
    (recur : (part : List Token) → part ∈ shape.parts → Numbered Expr) : Numbered Expr :=
  match shape, recur with
  | .branch kind first subject, recur => do
    if subject.isEmpty then fail line first (missingSubject kind)
    else
      let subject ← recur subject (by simp [parts])
      return branchOf kind (← mark line first) subject
  | .fallback kind first rest, _ => do
    match rest with
    | extra :: _ => fail line extra (.tokensAfter kind.keyword)
    | [] => return fallbackOf kind (← mark line first)
  | .spreadAssignment first sign invoked, recur => do
    match hinvoked : invoked with
    | [] => fail line sign .missingSpreadCall
    | start :: _ =>
      match ← recur invoked (by simp [parts, hinvoked]) with
      | .call callMark function arguments =>
        return .spreadAssign (← mark line first) (.call callMark function arguments)
      | _ => fail line start .missingSpreadCall
  | .declaration first type word, _ =>
    return .declare (← mark line first) type word none
  | .declarationWith first type word sign value, recur => do
    if value.isEmpty then fail line sign .missingDeclaredValue
    else
      let value ← recur value (by simp [parts])
      return .declare (← mark line first) type word (some value)
  | .assignment first target sign value, recur => do
    if value.isEmpty then fail line sign .missingAssignedValue
    else
      let target := targetOf target (← mark line first)
      let value ← recur value (by simp [parts])
      return .assign (← mark line first) target value
  | .binary first left sign operator right, recur => do
    if left.isEmpty then fail line sign (.missingOperand .left operator)
    else if right.isEmpty then fail line sign (.missingOperand .right operator)
    else
      let left ← recur left (by simp [parts])
      let right ← recur right (by simp [parts])
      return .binary (← mark line first) left operator right
  | .unplaced first tokens, _ => fail line first (.invalidExpression (Token.describe tokens))
  | .group first inner, recur => do
    if inner.isEmpty then fail line first .emptyGroup
    else
      let inner ← recur inner (by simp [parts])
      return .group (← mark line first) inner
  | .indexed first table bracket index, recur => do
    if index.isEmpty then fail line bracket .emptyIndex
    else
      let index ← recur index (by simp [parts])
      return .indexed (← mark line first) table index
  | .call first function tokens inner, recur =>
    readCall line first function tokens (Token.arguments inner) recur
  | .spread first, _ => return .spread (← mark line first)
  | .path first names, _ => return .path (← mark line first) names
  | .literal first value, _ => return .literal (← mark line first) value
  | .name first word, _ => return .name (← mark line first) word

end Shape

namespace Grammar

def standard : Grammar := ⟨Rule.standard, Tiers.standard⟩

/-- The shape found by the first rule that applies. -/
def recognize? (grammar : Grammar) (tokens : List Token) : Option Shape :=
  grammar.rules.findSome? fun rule => rule.recognize? grammar.tiers tokens

theorem length_lt_of_recognize? {grammar : Grammar} {tokens part : List Token} {shape : Shape}
    (h : grammar.recognize? tokens = some shape) (hp : part ∈ shape.parts) :
    part.length < tokens.length := by
  obtain ⟨rule, _, hr⟩ := List.exists_of_findSome?_eq_some h
  exact Rule.length_lt_of_recognize? hr hp

/-- Reads a run of tokens of a line as one expression. -/
def read (grammar : Grammar) (line : Line) (tokens : List Token) : Numbered Expr :=
  match tokens with
  | [] => throw (Fault.noTokens.located line.start)
  | first :: rest =>
    match _ : grammar.recognize? (first :: rest) with
    | none =>
      Numbered.fail line first (.invalidExpression (Token.describe (first :: rest)))
    | some shape => shape.read line fun part _ => grammar.read line part
termination_by tokens.length
decreasing_by exact length_lt_of_recognize? ‹_› ‹_›

/-- Reads a whole line as one expression. -/
def readLine (grammar : Grammar) (line : Line) : Numbered Expr := grammar.read line line.tokens

end Grammar

end DecisionLang
