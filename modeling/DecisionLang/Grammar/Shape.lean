import DecisionLang.Token.Slice
import DecisionLang.Tree.Expr
import DecisionLang.Vocabulary.Operator

/-!
# Rules and shapes

A grammar is an ordered list of rules. Each rule recognizes a shape in a run of tokens: the shape
holds the pieces that the rule found, so nothing has to be looked up again when it is read. The
runs of tokens that a shape leaves to be read are its parts.

An expression with several binary operators is split at one of them, and both sides are read the
same way. The split is at the last operator of the widest tier present, which makes every tier
associate to the left.

Main statement: every part is shorter than the run it was recognized in
(`Rule.length_lt_of_recognize?`).
-/

namespace DecisionLang

/-- Operators grouped by how tightly they bind, widest first. -/
abbrev Tiers := List (List Operator)

namespace Tiers

def standard : Tiers := Operator.binaryTiers

/-- Where to split: the last candidate of the first tier that has one. -/
def splitPoint? (tiers : Tiers) (candidates : List (Nat × Operator)) : Option (Nat × Operator) :=
  tiers.findSome? fun tier =>
    candidates.reverse.find? fun candidate => tier.contains candidate.2

theorem mem_of_splitPoint? {tiers : Tiers} {candidates : List (Nat × Operator)}
    {point : Nat × Operator} (h : tiers.splitPoint? candidates = some point) :
    point ∈ candidates := by
  obtain ⟨tier, _, hfind⟩ := List.exists_of_findSome?_eq_some h
  simpa using List.mem_of_find?_eq_some hfind

end Tiers

inductive Rule where
  | ifBranch | elseIfBranch | elseBranch | switch | case | default
  | spreadAssignment | declaration | assignment
  | binary
  | group | indexed | call | spread | path | literal | name
  deriving DecidableEq

namespace Rule

/-- The rules of the language in the order they are tried: statements, then binary expressions,
then single values. -/
def standard : List Rule :=
  [ifBranch, elseIfBranch, elseBranch, switch, case, default, spreadAssignment, declaration,
    assignment, binary, group, indexed, call, spread, path, literal, name]

def text : Rule → String
  | ifBranch => "if"
  | elseIfBranch => "elseif"
  | elseBranch => "else"
  | switch => "switch"
  | case => "case"
  | default => "default"
  | spreadAssignment => "spread assignment"
  | declaration => "variable declaration"
  | assignment => "assignment"
  | binary => "binary"
  | group => "parenthesized"
  | indexed => "bracketed"
  | call => "function call"
  | spread => "spread"
  | path => "member access"
  | literal => "literal"
  | name => "identifier"

def ofText? (text : String) : Option Rule :=
  standard.find? fun rule => rule.text == text

end Rule

/-- Block expressions with something to decide on. -/
inductive Branch where
  | ifThen | elseIf | switch | case
  deriving DecidableEq

def Branch.keyword : Branch → Keyword
  | ifThen => .ifBranch
  | elseIf => .elseIfBranch
  | switch => .switch
  | case => .case

/-- Block expressions that stand for all other cases. -/
inductive Fallback where
  | otherwise | default
  deriving DecidableEq

def Fallback.keyword : Fallback → Keyword
  | otherwise => .elseBranch
  | default => .default

/-- What can be assigned to. -/
inductive Target where
  | name (word : String)
  | path (names : NamePath)

/-- What a rule found. The first token, `first`, is where the expression stands. -/
inductive Shape where
  | branch (branch : Branch) (first : Token) (subject : List Token)
  | fallback (fallback : Fallback) (first : Token) (rest : List Token)
  | spreadAssignment (first sign : Token) (call : List Token)
  | declaration (first : Token) (type : WrittenType) (name : String)
  | declarationWith (first : Token) (type : WrittenType) (name : String) (sign : Token)
      (value : List Token)
  | assignment (first : Token) (target : Target) (sign : Token) (value : List Token)
  | binary (first : Token) (left : List Token) (sign : Token) (operator : Operator)
      (right : List Token)
  /-- Binary operators, but none that has a tier. -/
  | unplaced (first : Token) (tokens : List Token)
  | group (first : Token) (inner : List Token)
  | indexed (first : Token) (table : String) (bracket : Token) (index : List Token)
  | call (first : Token) (function : String) (tokens inner : List Token)
  | spread (first : Token)
  | path (first : Token) (names : NamePath)
  | literal (first : Token) (value : Literal)
  | name (first : Token) (word : String)

namespace Shape

/-- Runs of tokens that are left to be read. -/
@[simp] def parts : Shape → List (List Token)
  | branch _ _ subject => [subject]
  | spreadAssignment _ _ invoked => [invoked]
  | declarationWith _ _ _ _ value => [value]
  | assignment _ _ _ value => [value]
  | binary _ left _ _ right => [left, right]
  | group _ inner => [inner]
  | indexed _ _ _ index => [index]
  | call _ _ _ inner => Token.arguments inner
  | _ => []

end Shape

namespace Rule

def branchShape? (branch : Branch) : List Token → Option Shape
  | first :: rest =>
    if first.isKeyword branch.keyword then some (.branch branch first rest) else none
  | [] => none

def fallbackShape? (fallback : Fallback) : List Token → Option Shape
  | first :: rest =>
    if first.isKeyword fallback.keyword then some (.fallback fallback first rest) else none
  | [] => none

def spreadAssignmentShape? : List Token → Option Shape
  | first :: sign :: rest =>
    if first.isOperator .spread && sign.isOperator .assignment then
      some (.spreadAssignment first sign rest)
    else none
  | _ => none

def declarationShape? : List Token → Option Shape
  | [first, second] => do
    let type ← WrittenType.ofToken? first
    let name ← second.name?
    return .declaration first type name
  | first :: second :: sign :: value => do
    let type ← WrittenType.ofToken? first
    let name ← second.name?
    if sign.isOperator .assignment then
      return .declarationWith first type name sign value
    else none
  | _ => none

def target? (token : Token) : Option Target :=
  match token.path? with
  | some parts => some (.path (NamePath.ofParts parts))
  | none => token.name?.map .name

def assignmentShape? : List Token → Option Shape
  | first :: sign :: value => do
    let target ← target? first
    if sign.isOperator .assignment then return .assignment first target sign value else none
  | _ => none

/-- Splits at the given index. -/
def binaryShapeAt? (tokens : List Token) (first : Token) (point : Nat × Operator) :
    Option Shape :=
  match tokens.drop point.1 with
  | sign :: right => some (.binary first (tokens.take point.1) sign point.2 right)
  | [] => none

def binaryShape? (tiers : Tiers) (tokens : List Token) : Option Shape :=
  match tokens.head?, Token.outerOperators? tokens with
  | some first, some (candidate :: candidates) =>
    match tiers.splitPoint? (candidate :: candidates) with
    | some point => binaryShapeAt? tokens first point
    | none => some (.unplaced first tokens)
  | _, _ => none

/-- Whether the bracket at an index closes with the last token. -/
def closesAtEnd (tokens : List Token) (index : Nat) : Bool :=
  Token.matchingClose? tokens index == some (tokens.length - 1)

def groupShape? : List Token → Option Shape
  | first :: rest =>
    if first.isOperator .openParenthesis && closesAtEnd (first :: rest) 0 then
      some (.group first rest.dropLast)
    else none
  | [] => none

def indexedShape? : List Token → Option Shape
  | first :: bracket :: rest => do
    let table ← first.name?
    if bracket.isOperator .openBracket && closesAtEnd (first :: bracket :: rest) 1 then
      return .indexed first table bracket rest.dropLast
    else none
  | _ => none

def callShape? : List Token → Option Shape
  | first :: bracket :: rest => do
    let function ← first.name?
    if bracket.isOperator .openParenthesis && closesAtEnd (first :: bracket :: rest) 1 then
      return .call first function (first :: bracket :: rest) rest.dropLast
    else none
  | _ => none

def spreadShape? : List Token → Option Shape
  | [first] => if first.isOperator .spread then some (.spread first) else none
  | _ => none

def pathShape? : List Token → Option Shape
  | [first] => first.path?.map fun parts => .path first (NamePath.ofParts parts)
  | _ => none

def literalShape? : List Token → Option Shape
  | [first] => (Literal.ofToken? first).map (.literal first)
  | _ => none

def nameShape? : List Token → Option Shape
  | [first] => first.name?.map (.name first)
  | _ => none

/-- The shape that a rule finds in a run of tokens, if the rule applies. -/
def recognize? (tiers : Tiers) : Rule → List Token → Option Shape
  | ifBranch => branchShape? .ifThen
  | elseIfBranch => branchShape? .elseIf
  | elseBranch => fallbackShape? .otherwise
  | switch => branchShape? .switch
  | case => branchShape? .case
  | default => fallbackShape? .default
  | spreadAssignment => spreadAssignmentShape?
  | declaration => declarationShape?
  | assignment => assignmentShape?
  | binary => binaryShape? tiers
  | group => groupShape?
  | indexed => indexedShape?
  | call => callShape?
  | spread => spreadShape?
  | path => pathShape?
  | literal => literalShape?
  | name => nameShape?

/-! ### Parts are shorter -/

theorem length_lt_of_branchShape? {branch : Branch} {tokens part : List Token} {shape : Shape}
    (h : branchShape? branch tokens = some shape) (hp : part ∈ shape.parts) :
    part.length < tokens.length := by
  cases tokens with
  | nil => cases h
  | cons first rest =>
    simp only [branchShape?, Option.ite_none_right_eq_some, Option.some.injEq] at h
    obtain ⟨_, rfl⟩ := h
    simp_all [Shape.parts]

theorem length_lt_of_fallbackShape? {fallback : Fallback} {tokens part : List Token}
    {shape : Shape} (h : fallbackShape? fallback tokens = some shape) (hp : part ∈ shape.parts) :
    part.length < tokens.length := by
  cases tokens with
  | nil => cases h
  | cons first rest =>
    simp only [fallbackShape?, Option.ite_none_right_eq_some, Option.some.injEq] at h
    obtain ⟨_, rfl⟩ := h
    simp [Shape.parts] at hp

theorem length_lt_of_spreadAssignmentShape? {tokens part : List Token} {shape : Shape}
    (h : spreadAssignmentShape? tokens = some shape) (hp : part ∈ shape.parts) :
    part.length < tokens.length := by
  unfold spreadAssignmentShape? at h
  split at h
  · simp only [Option.ite_none_right_eq_some, Option.some.injEq] at h
    obtain ⟨_, rfl⟩ := h
    simp only [Shape.parts, List.mem_singleton] at hp
    subst hp
    simp only [List.length_cons]
    omega
  · cases h

theorem length_lt_of_declarationShape? {tokens part : List Token} {shape : Shape}
    (h : declarationShape? tokens = some shape) (hp : part ∈ shape.parts) :
    part.length < tokens.length := by
  unfold declarationShape? at h
  split at h
  · simp only [Option.bind_eq_bind, Option.bind_eq_some_iff] at h
    obtain ⟨type, _, name, _, h⟩ := h
    cases h
    simp [Shape.parts] at hp
  · simp only [Option.bind_eq_bind, Option.bind_eq_some_iff] at h
    obtain ⟨type, _, name, _, h⟩ := h
    split at h
    · cases h
      simp only [Shape.parts, List.mem_singleton] at hp
      subst hp
      simp only [List.length_cons]
      omega
    · cases h
  · cases h

theorem length_lt_of_assignmentShape? {tokens part : List Token} {shape : Shape}
    (h : assignmentShape? tokens = some shape) (hp : part ∈ shape.parts) :
    part.length < tokens.length := by
  unfold assignmentShape? at h
  split at h
  · simp only [Option.bind_eq_bind, Option.bind_eq_some_iff] at h
    obtain ⟨target, _, h⟩ := h
    split at h
    · cases h
      simp only [Shape.parts, List.mem_singleton] at hp
      subst hp
      simp only [List.length_cons]
      omega
    · cases h
  · cases h

theorem length_lt_of_binaryShape? {tiers : Tiers} {tokens part : List Token} {shape : Shape}
    (h : binaryShape? tiers tokens = some shape) (hp : part ∈ shape.parts) :
    part.length < tokens.length := by
  unfold binaryShape? at h
  split at h
  · next first candidate candidates _ hcandidates =>
    split at h
    · next point hpoint =>
      have hlt := Token.lt_length_of_mem_outerOperators? hcandidates
        (Tiers.mem_of_splitPoint? hpoint)
      unfold binaryShapeAt? at h
      split at h
      · next sign right hdrop =>
        cases h
        have hlength := congrArg List.length hdrop
        simp only [List.length_drop, List.length_cons] at hlength
        simp only [Shape.parts, List.mem_cons, List.not_mem_nil, or_false] at hp
        rcases hp with rfl | rfl
        · simp only [List.length_take]
          omega
        · omega
      · cases h
    · cases h
      simp [Shape.parts] at hp
  · cases h

theorem length_lt_of_groupShape? {tokens part : List Token} {shape : Shape}
    (h : groupShape? tokens = some shape) (hp : part ∈ shape.parts) :
    part.length < tokens.length := by
  unfold groupShape? at h
  split at h
  · simp only [Option.ite_none_right_eq_some, Option.some.injEq] at h
    obtain ⟨_, rfl⟩ := h
    simp only [Shape.parts, List.mem_singleton] at hp
    subst hp
    simp only [List.length_dropLast, List.length_cons]
    omega
  · cases h

theorem length_lt_of_indexedShape? {tokens part : List Token} {shape : Shape}
    (h : indexedShape? tokens = some shape) (hp : part ∈ shape.parts) :
    part.length < tokens.length := by
  unfold indexedShape? at h
  split at h
  · simp only [Option.bind_eq_bind, Option.bind_eq_some_iff] at h
    obtain ⟨table, _, h⟩ := h
    split at h
    · cases h
      simp only [Shape.parts, List.mem_singleton] at hp
      subst hp
      simp only [List.length_dropLast, List.length_cons]
      omega
    · cases h
  · cases h

theorem length_lt_of_callShape? {tokens part : List Token} {shape : Shape}
    (h : callShape? tokens = some shape) (hp : part ∈ shape.parts) :
    part.length < tokens.length := by
  unfold callShape? at h
  split at h
  · simp only [Option.bind_eq_bind, Option.bind_eq_some_iff] at h
    obtain ⟨function, _, h⟩ := h
    split at h
    · cases h
      have := Token.length_le_of_mem_arguments hp
      simp only [List.length_dropLast, List.length_cons] at this ⊢
      omega
    · cases h
  · cases h

theorem parts_of_singleShape {rule : Rule} {tiers : Tiers} {tokens : List Token} {shape : Shape}
    (hr : rule ∈ [spread, path, literal, name])
    (h : rule.recognize? tiers tokens = some shape) : shape.parts = [] := by
  simp only [List.mem_cons, List.not_mem_nil, or_false] at hr
  rcases hr with rfl | rfl | rfl | rfl <;>
    simp only [recognize?, spreadShape?, pathShape?, literalShape?, nameShape?] at h <;>
    split at h <;>
    simp only [Option.ite_none_right_eq_some, Option.map_eq_some_iff, Option.some.injEq,
      reduceCtorEq] at h
  · obtain ⟨_, rfl⟩ := h
    rfl
  all_goals
    obtain ⟨_, _, rfl⟩ := h
    rfl

/-- What a shape leaves to be read is shorter than what it was recognized in. -/
theorem length_lt_of_recognize? {rule : Rule} {tiers : Tiers} {tokens part : List Token}
    {shape : Shape} (h : rule.recognize? tiers tokens = some shape) (hp : part ∈ shape.parts) :
    part.length < tokens.length := by
  cases rule with
  | ifBranch | elseIfBranch | switch | case => exact length_lt_of_branchShape? h hp
  | elseBranch | default => exact length_lt_of_fallbackShape? h hp
  | spreadAssignment => exact length_lt_of_spreadAssignmentShape? h hp
  | declaration => exact length_lt_of_declarationShape? h hp
  | assignment => exact length_lt_of_assignmentShape? h hp
  | binary => exact length_lt_of_binaryShape? h hp
  | group => exact length_lt_of_groupShape? h hp
  | indexed => exact length_lt_of_indexedShape? h hp
  | call => exact length_lt_of_callShape? h hp
  | spread | path | literal | name =>
    rw [parts_of_singleShape (by simp) h] at hp
    cases hp

end Rule

end DecisionLang
