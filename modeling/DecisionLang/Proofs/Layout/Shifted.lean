import DecisionLang.Grammar

/-!
# Tokens in other columns

`Token.shift` moves a token to another column. Everything that is asked about runs of tokens is
asked of their kinds, so a run of shifted tokens is taken apart into the same pieces, shifted. Main
statement: `Grammar.recognize?_shift`.
-/

namespace DecisionLang

variable (columns : Nat → Nat)

def Token.shift (token : Token) : Token := { token with column := columns token.column }

/-! ### Single tokens -/

namespace Token

variable (token : Token)

@[simp] theorem kind_shift : (token.shift columns).kind = token.kind := rfl

@[simp] theorem text_shift : (token.shift columns).text = token.text := rfl

@[simp] theorem keyword?_shift : (token.shift columns).keyword? = token.keyword? := rfl

@[simp] theorem name?_shift : (token.shift columns).name? = token.name? := rfl

@[simp] theorem operator?_shift : (token.shift columns).operator? = token.operator? := rfl

@[simp] theorem path?_shift : (token.shift columns).path? = token.path? := rfl

@[simp] theorem quoted?_shift : (token.shift columns).quoted? = token.quoted? := rfl

@[simp] theorem isKeyword_shift (keyword : Keyword) :
    (token.shift columns).isKeyword keyword = token.isKeyword keyword := rfl

@[simp] theorem isOperator_shift (operator : Operator) :
    (token.shift columns).isOperator operator = token.isOperator operator := rfl

@[simp] theorem opens_shift : (token.shift columns).opens = token.opens := rfl

@[simp] theorem closes_shift : (token.shift columns).closes = token.closes := rfl

@[simp] theorem writtenType_shift :
    WrittenType.ofToken? (token.shift columns) = WrittenType.ofToken? token := rfl

@[simp] theorem literal_shift :
    Literal.ofToken? (token.shift columns) = Literal.ofToken? token := rfl

@[simp] theorem target?_shift : Rule.target? (token.shift columns) = Rule.target? token := rfl

/-! ### Runs of tokens -/

variable (tokens : List Token)

@[simp] theorem describe_shift : describe (tokens.map (shift columns)) = describe tokens := by
  rw [describe, List.map_map]
  rfl

@[simp] theorem closeAfter?_shift (depth : Nat) :
    closeAfter? depth (tokens.map (shift columns)) = closeAfter? depth tokens := by
  induction tokens generalizing depth with
  | nil => rfl
  | cons token rest ih => simp only [List.map_cons, closeAfter?, opens_shift, closes_shift, ih]

@[simp] theorem matchingClose?_shift (index : Nat) :
    matchingClose? (tokens.map (shift columns)) index = matchingClose? tokens index := by
  rw [matchingClose?, matchingClose?, ← List.map_drop, closeAfter?_shift]

theorem outerOperatorsFrom?_shift (index depth : Nat) :
    outerOperatorsFrom? index depth (tokens.map (shift columns)) =
      outerOperatorsFrom? index depth tokens := by
  induction tokens generalizing index depth with
  | nil => rfl
  | cons token rest ih =>
    simp only [List.map_cons, outerOperatorsFrom?, opens_shift, closes_shift, operator?_shift, ih]

@[simp] theorem outerOperators?_shift :
    outerOperators? (tokens.map (shift columns)) = outerOperators? tokens :=
  outerOperatorsFrom?_shift columns tokens 0 0

theorem splitOuter_shift (depth : Nat) :
    splitOuter depth (tokens.map (shift columns)) =
      (splitOuter depth tokens).map (List.map (shift columns)) := by
  induction tokens generalizing depth with
  | nil => rfl
  | cons token rest ih =>
    simp only [List.map_cons, splitOuter, opens_shift, closes_shift, isOperator_shift, ih]
    split
    · rfl
    · rcases token.opens.eq_false_or_eq_true with hopens | hopens <;>
        rcases token.closes.eq_false_or_eq_true with hcloses | hcloses <;>
        simp only [hopens, hcloses, reduceIte, Bool.false_eq_true] <;>
        cases splitOuter _ rest <;> rfl

@[simp] theorem arguments_shift :
    arguments (tokens.map (shift columns)) = (arguments tokens).map (List.map (shift columns)) := by
  cases tokens with
  | nil => rfl
  | cons token rest => exact splitOuter_shift columns (token :: rest) 0

theorem cellsBetween_shift :
    cellsBetween (tokens.map (shift columns)) =
      (cellsBetween tokens).map (List.map (shift columns)) := by
  induction tokens with
  | nil => rfl
  | cons token rest ih =>
    simp only [List.map_cons, cellsBetween, isOperator_shift, ih]
    split
    · rfl
    · generalize cellsBetween rest = pieces
      cases pieces <;> rfl

@[simp] theorem cells?_shift :
    cells? (tokens.map (shift columns)) =
      (cells? tokens).map (List.map (List.map (shift columns))) := by
  rcases tokens with _ | ⟨first, _ | ⟨second, rest⟩⟩
  · rfl
  · rfl
  · have hlast (tokens : List Token) : (tokens.map (shift columns)).getLast?.any
        (isOperator .tableSeparator) = tokens.getLast?.any (isOperator .tableSeparator) := by
      rw [List.getLast?_map, Option.any_map]
      rfl
    rw [List.map_cons, List.map_cons, cells?, cells?, ← List.map_cons, hlast,
      ← List.map_dropLast, cellsBetween_shift, isOperator_shift]
    split <;> rfl

end Token

/-! ### Shapes -/

namespace Shape

def shift : Shape → Shape
  | branch kind first subject =>
    branch kind (first.shift columns) (subject.map (Token.shift columns))
  | fallback kind first rest =>
    fallback kind (first.shift columns) (rest.map (Token.shift columns))
  | spreadAssignment first sign invoked =>
    spreadAssignment (first.shift columns) (sign.shift columns) (invoked.map (Token.shift columns))
  | declaration first type declared => declaration (first.shift columns) type declared
  | declarationWith first type declared sign value =>
    declarationWith (first.shift columns) type declared (sign.shift columns)
      (value.map (Token.shift columns))
  | assignment first target sign value =>
    assignment (first.shift columns) target (sign.shift columns) (value.map (Token.shift columns))
  | binary first left sign operator right =>
    binary (first.shift columns) (left.map (Token.shift columns)) (sign.shift columns) operator
      (right.map (Token.shift columns))
  | unplaced first tokens => unplaced (first.shift columns) (tokens.map (Token.shift columns))
  | group first inner => group (first.shift columns) (inner.map (Token.shift columns))
  | indexed first table bracket index =>
    indexed (first.shift columns) table (bracket.shift columns) (index.map (Token.shift columns))
  | call first function tokens inner =>
    call (first.shift columns) function (tokens.map (Token.shift columns))
      (inner.map (Token.shift columns))
  | spread first => spread (first.shift columns)
  | path first names => path (first.shift columns) names
  | literal first value => literal (first.shift columns) value
  | name first word => name (first.shift columns) word

end Shape

namespace Rule

open Token

variable (tokens : List Token)

theorem closesAtEnd_shift (index : Nat) :
    closesAtEnd (tokens.map (Token.shift columns)) index = closesAtEnd tokens index := by
  rw [closesAtEnd, closesAtEnd, matchingClose?_shift, List.length_map]

theorem branchShape?_shift (branch : Branch) :
    branchShape? branch (tokens.map (Token.shift columns)) =
      (branchShape? branch tokens).map (Shape.shift columns) := by
  cases tokens with
  | nil => rfl
  | cons first rest =>
    rw [List.map_cons, branchShape?, branchShape?, Option.map_if]
    rfl

theorem fallbackShape?_shift (fallback : Fallback) :
    fallbackShape? fallback (tokens.map (Token.shift columns)) =
      (fallbackShape? fallback tokens).map (Shape.shift columns) := by
  cases tokens with
  | nil => rfl
  | cons first rest =>
    rw [List.map_cons, fallbackShape?, fallbackShape?, Option.map_if]
    rfl

theorem spreadAssignmentShape?_shift :
    spreadAssignmentShape? (tokens.map (Token.shift columns)) =
      (spreadAssignmentShape? tokens).map (Shape.shift columns) := by
  rcases tokens with _ | ⟨first, _ | ⟨sign, rest⟩⟩
  · rfl
  · rfl
  · rw [List.map_cons, List.map_cons, spreadAssignmentShape?, spreadAssignmentShape?,
      Option.map_if]
    rfl

theorem declarationShape?_shift :
    declarationShape? (tokens.map (Token.shift columns)) =
      (declarationShape? tokens).map (Shape.shift columns) := by
  rcases tokens with _ | ⟨first, _ | ⟨second, _ | ⟨sign, value⟩⟩⟩
  · rfl
  · rfl
  · simp only [List.map_cons, List.map_nil, declarationShape?, writtenType_shift, name?_shift]
    cases WrittenType.ofToken? first <;> cases second.name? <;> rfl
  · simp only [List.map_cons, declarationShape?, writtenType_shift, name?_shift]
    cases WrittenType.ofToken? first with
    | none => rfl
    | some type =>
      cases second.name? with
      | none => rfl
      | some name =>
        simp only [Option.bind_eq_bind, Option.bind_some, Option.pure_def, Option.map_if]
        rfl

theorem assignmentShape?_shift :
    assignmentShape? (tokens.map (Token.shift columns)) =
      (assignmentShape? tokens).map (Shape.shift columns) := by
  rcases tokens with _ | ⟨first, _ | ⟨sign, value⟩⟩
  · rfl
  · rfl
  · simp only [List.map_cons, assignmentShape?, target?_shift]
    cases target? first with
    | none => rfl
    | some target =>
      simp only [Option.bind_eq_bind, Option.bind_some, Option.pure_def, Option.map_if]
      rfl

theorem binaryShape?_shift (tiers : Tiers) :
    binaryShape? tiers (tokens.map (Token.shift columns)) =
      (binaryShape? tiers tokens).map (Shape.shift columns) := by
  cases tokens with
  | nil => rfl
  | cons first rest =>
    unfold binaryShape?
    rw [outerOperators?_shift]
    rcases outerOperators? (first :: rest) with _ | _ | ⟨candidate, candidates⟩
    · rfl
    · rfl
    · rw [List.head?_map]
      dsimp only [List.head?_cons, Option.map_some]
      cases tiers.splitPoint? (candidate :: candidates) with
      | none => rfl
      | some point =>
        dsimp only [binaryShapeAt?]
        rw [← List.map_drop, ← List.map_take]
        cases (first :: rest).drop point.1 <;> rfl

theorem groupShape?_shift :
    groupShape? (tokens.map (Token.shift columns)) =
      (groupShape? tokens).map (Shape.shift columns) := by
  cases tokens with
  | nil => rfl
  | cons first rest =>
    rw [List.map_cons, groupShape?, groupShape?, ← List.map_cons, closesAtEnd_shift,
      ← List.map_dropLast, Option.map_if]
    rfl

theorem indexedShape?_shift :
    indexedShape? (tokens.map (Token.shift columns)) =
      (indexedShape? tokens).map (Shape.shift columns) := by
  rcases tokens with _ | ⟨first, _ | ⟨bracket, rest⟩⟩
  · rfl
  · rfl
  · rw [List.map_cons, List.map_cons, indexedShape?, indexedShape?, ← List.map_cons,
      ← List.map_cons, closesAtEnd_shift, ← List.map_dropLast, name?_shift]
    cases first.name? with
    | none => rfl
    | some table =>
      simp only [Option.bind_eq_bind, Option.bind_some, Option.pure_def, Option.map_if]
      rfl

theorem callShape?_shift :
    callShape? (tokens.map (Token.shift columns)) =
      (callShape? tokens).map (Shape.shift columns) := by
  rcases tokens with _ | ⟨first, _ | ⟨bracket, rest⟩⟩
  · rfl
  · rfl
  · rw [List.map_cons, List.map_cons, callShape?, callShape?, ← List.map_cons, ← List.map_cons,
      closesAtEnd_shift, ← List.map_dropLast, name?_shift]
    cases first.name? with
    | none => rfl
    | some function =>
      simp only [Option.bind_eq_bind, Option.bind_some, Option.pure_def, Option.map_if]
      rfl

theorem singleShape?_shift {rule : Rule} {tiers : Tiers}
    (hrule : rule ∈ [spread, path, literal, name]) :
    rule.recognize? tiers (tokens.map (Token.shift columns)) =
      (rule.recognize? tiers tokens).map (Shape.shift columns) := by
  simp only [List.mem_cons, List.not_mem_nil, or_false] at hrule
  rcases tokens with _ | ⟨first, _ | ⟨second, rest⟩⟩
  · rcases hrule with rfl | rfl | rfl | rfl <;> rfl
  · rcases hrule with rfl | rfl | rfl | rfl
    · rw [List.map_cons, List.map_nil, recognize?, spreadShape?, spreadShape?, Option.map_if]
      rfl
    · simp only [List.map_cons, List.map_nil, recognize?, pathShape?, path?_shift]
      cases first.path? <;> rfl
    · simp only [List.map_cons, List.map_nil, recognize?, literalShape?, literal_shift]
      cases Literal.ofToken? first <;> rfl
    · simp only [List.map_cons, List.map_nil, recognize?, nameShape?, name?_shift]
      cases first.name? <;> rfl
  · rcases hrule with rfl | rfl | rfl | rfl <;> rfl

theorem recognize?_shift (rule : Rule) (tiers : Tiers) :
    rule.recognize? tiers (tokens.map (Token.shift columns)) =
      (rule.recognize? tiers tokens).map (Shape.shift columns) := by
  cases rule with
  | ifBranch | elseIfBranch | switch | case => exact branchShape?_shift columns tokens _
  | elseBranch | default => exact fallbackShape?_shift columns tokens _
  | spreadAssignment => exact spreadAssignmentShape?_shift columns tokens
  | declaration => exact declarationShape?_shift columns tokens
  | assignment => exact assignmentShape?_shift columns tokens
  | binary => exact binaryShape?_shift columns tokens tiers
  | group => exact groupShape?_shift columns tokens
  | indexed => exact indexedShape?_shift columns tokens
  | call => exact callShape?_shift columns tokens
  | spread | path | literal | name => exact singleShape?_shift columns tokens (by simp)

end Rule

/-- Shifted tokens are recognized as the shape that the tokens are, shifted. -/
theorem Grammar.recognize?_shift (grammar : Grammar) (tokens : List Token) :
    grammar.recognize? (tokens.map (Token.shift columns)) =
      (grammar.recognize? tokens).map (Shape.shift columns) := by
  simp only [recognize?, Rule.recognize?_shift, List.map_findSome?]
  rfl

end DecisionLang
