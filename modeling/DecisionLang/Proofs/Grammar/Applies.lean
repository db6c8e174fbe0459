import DecisionLang.Proofs.Grammar.Guarded
import DecisionLang.Proofs.Grammar.Recognized

/-!
# Whether a rule applies

Rules recognize shapes, which name the pieces of a run of tokens. Whether a rule applies can also be
told from the length of the run and from tokens and closing brackets at certain positions. A rule is
asked about all tokens, since no rule knows which other rules have been tried before it. Main
statement: a rule applies to the tokens that it recognizes a shape in (`Rule.applies_eq`).
-/

namespace DecisionLang

open Guarded

namespace Token

def isKeywordAt (tokens : List Token) (position : Nat) (keyword : Keyword) : Bool :=
  tokens[position]?.any (isKeyword keyword)

def isOperatorAt (tokens : List Token) (position : Nat) (operator : Operator) : Bool :=
  tokens[position]?.any (isOperator operator)

end Token

namespace Rule

section Applying

variable (tokens : List Token)

/-- Whether the bracket at a position closes with the last token. -/
def closesLast (position : Nat) : Guarded Bool := do
  return Token.matchingClose? tokens position == some (← last tokens)

def hasNameAt (position : Nat) : Guarded Bool := do
  return (← item tokens position).name?.isSome

/-- A name with a pair of brackets behind it. -/
def isBracketedName (opening : Operator) : Guarded Bool :=
  pure (3 ≤ tokens.length) <&&> hasNameAt tokens 0 <&&>
    pure (Token.isOperatorAt tokens 1 opening) <&&> closesLast tokens 1

def isSingle (test : Token → Bool) : Guarded Bool :=
  pure (tokens.length = 1) <&&> do return test (← item tokens 0)

/-- Whether a rule applies to some tokens. A test that follows another is made only if that one
holds. -/
def applies : Rule → Guarded Bool
  | ifBranch => return Token.isKeywordAt tokens 0 .ifBranch
  | elseIfBranch => return Token.isKeywordAt tokens 0 .elseIfBranch
  | elseBranch => return Token.isKeywordAt tokens 0 .elseBranch
  | switch => return Token.isKeywordAt tokens 0 .switch
  | case => return Token.isKeywordAt tokens 0 .case
  | default => return Token.isKeywordAt tokens 0 .default
  | spreadAssignment =>
    return Token.isOperatorAt tokens 0 .spread && Token.isOperatorAt tokens 1 .assignment
  | declaration =>
    pure (2 ≤ tokens.length) <&&> (do return (WrittenType.ofToken? (← item tokens 0)).isSome) <&&>
      hasNameAt tokens 1 <&&> pure (tokens.length = 2 || Token.isOperatorAt tokens 2 .assignment)
  | assignment =>
    pure (2 ≤ tokens.length) <&&>
      (hasNameAt tokens 0 <||> do return (← item tokens 0).path?.isSome) <&&>
      pure (Token.isOperatorAt tokens 1 .assignment)
  | binary => return (Token.outerOperators? tokens).any fun found => !found.isEmpty
  | group => pure (Token.isOperatorAt tokens 0 .openParenthesis) <&&> closesLast tokens 0
  | indexed => isBracketedName tokens .openBracket
  | call => isBracketedName tokens .openParenthesis
  | spread => isSingle tokens (Token.isOperator .spread)
  | path => isSingle tokens fun token => token.path?.isSome
  | literal => isSingle tokens fun token => token.kind.isLiteral
  | name => isSingle tokens fun token => token.name?.isSome

/-- The first of several rules that applies. -/
def first? : List Rule → Guarded (Option Rule)
  | [] => return none
  | rule :: rules => do if ← rule.applies tokens then return some rule else first? rules

end Applying

variable {tiers : Tiers} {tokens : List Token}

theorem isKeywordAt_branch (kind : Branch) :
    Token.isKeywordAt tokens 0 kind.keyword = (branchShape? kind tokens).isSome := by
  cases tokens with
  | nil => rfl
  | cons first rest =>
    simp only [Token.isKeywordAt, List.getElem?_cons_zero, Option.any_some, branchShape?]
    cases first.isKeyword kind.keyword <;> rfl

theorem isKeywordAt_fallback (kind : Fallback) :
    Token.isKeywordAt tokens 0 kind.keyword = (fallbackShape? kind tokens).isSome := by
  cases tokens with
  | nil => rfl
  | cons first rest =>
    simp only [Token.isKeywordAt, List.getElem?_cons_zero, Option.any_some, fallbackShape?]
    cases first.isKeyword kind.keyword <;> rfl

theorem isOperatorAt_spreadAssignment :
    (Token.isOperatorAt tokens 0 .spread && Token.isOperatorAt tokens 1 .assignment) =
      (spreadAssignmentShape? tokens).isSome := by
  match tokens with
  | [] => rfl
  | [_] => simp [Token.isOperatorAt, spreadAssignmentShape?]
  | first :: sign :: _ =>
    simp only [Token.isOperatorAt, List.getElem?_cons_zero, List.getElem?_cons_succ,
      Option.any_some, spreadAssignmentShape?]
    cases first.isOperator .spread && sign.isOperator .assignment <;> rfl

theorem applies_declaration :
    applies tokens declaration = pure (declarationShape? tokens).isSome := by
  match tokens with
  | [] => rfl
  | [_] => rfl
  | [first, second] =>
    have happlies : applies [first, second] declaration =
        pure ((WrittenType.ofToken? first).isSome && second.name?.isSome) := by
      simp [applies, hasNameAt]
    rw [happlies, declarationShape?]
    cases WrittenType.ofToken? first <;> cases second.name? <;> rfl
  | first :: second :: sign :: value =>
    have happlies : applies (first :: second :: sign :: value) declaration =
        pure ((WrittenType.ofToken? first).isSome &&
          (second.name?.isSome && sign.isOperator .assignment)) := by
      simp [applies, hasNameAt, Token.isOperatorAt]
    rw [happlies, declarationShape?]
    cases WrittenType.ofToken? first <;> cases second.name? <;>
      cases sign.isOperator .assignment <;> rfl

theorem applies_assignment :
    applies tokens assignment = pure (assignmentShape? tokens).isSome := by
  match tokens with
  | [] => rfl
  | [_] => rfl
  | first :: sign :: value =>
    have happlies : applies (first :: sign :: value) assignment =
        pure ((first.name?.isSome || first.path?.isSome) && sign.isOperator .assignment) := by
      simp [applies, hasNameAt, Token.isOperatorAt]
    rw [happlies, assignmentShape?, target?]
    cases first.path? <;> cases first.name? <;> cases sign.isOperator .assignment <;> rfl

theorem any_outerOperators? :
    ((Token.outerOperators? tokens).any fun found => !found.isEmpty) =
      (binaryShape? tiers tokens).isSome := by
  unfold binaryShape?
  split
  · next first candidate candidates _ hcandidates =>
    rw [hcandidates]
    split
    · next point hpoint =>
      have hlt := Token.lt_length_of_mem_outerOperators? hcandidates
        (Tiers.mem_of_splitPoint? hpoint)
      rw [binaryShapeAt?, List.drop_eq_getElem_cons hlt]
      rfl
    · rfl
  · next hother =>
    cases tokens with
    | nil => rfl
    | cons first rest =>
      cases hfound : Token.outerOperators? (first :: rest) with
      | none => rfl
      | some found =>
        cases found with
        | nil => rfl
        | cons candidate candidates => exact absurd hfound (hother _ _ _ rfl)

theorem closesLast_cons (first : Token) (rest : List Token) (position : Nat) :
    closesLast (first :: rest) position = pure (closesAtEnd (first :: rest) position) := by
  simp [closesLast, closesAtEnd]

theorem applies_group : applies tokens group = pure (groupShape? tokens).isSome := by
  match tokens with
  | [] => rfl
  | first :: rest =>
    simp only [applies, groupShape?, Token.isOperatorAt, closesLast_cons]
    cases hfirst : first.isOperator .openParenthesis <;>
      cases closesAtEnd (first :: rest) 0 <;> simp [hfirst]

theorem closesAtEnd_pair {first bracket : Token} {opening : Operator}
    (hbracket : bracket.isOperator opening = true) (hopens : opening.opens = true) :
    closesAtEnd [first, bracket] 1 = false := by
  by_contra h
  have hclose : closesAtEnd ([first] ++ bracket :: []) [first].length = true := by simpa using h
  obtain ⟨last, hrest, _⟩ := exists_inner_of_closesAtEnd [first] hbracket hopens hclose
  cases hrest

theorem isBracketedName_cons {opening : Operator} (hopens : opening.opens = true)
    (first bracket : Token) (rest : List Token) :
    isBracketedName (first :: bracket :: rest) opening =
      pure (first.name?.isSome &&
        (bracket.isOperator opening && closesAtEnd (first :: bracket :: rest) 1)) := by
  cases rest with
  | nil =>
    have hpair : (bracket.isOperator opening && closesAtEnd [first, bracket] 1) = false := by
      cases h : bracket.isOperator opening
      · rfl
      · exact closesAtEnd_pair h hopens
    rw [hpair, Bool.and_false]
    rfl
  | cons third rest =>
    simp [isBracketedName, hasNameAt, Token.isOperatorAt, closesLast_cons]

theorem applies_indexed : applies tokens indexed = pure (indexedShape? tokens).isSome := by
  match tokens with
  | [] => rfl
  | [_] => rfl
  | first :: bracket :: rest =>
    rw [applies, isBracketedName_cons rfl, indexedShape?]
    cases first.name? <;>
      cases bracket.isOperator .openBracket && closesAtEnd (first :: bracket :: rest) 1 <;> rfl

theorem applies_call : applies tokens call = pure (callShape? tokens).isSome := by
  match tokens with
  | [] => rfl
  | [_] => rfl
  | first :: bracket :: rest =>
    rw [applies, isBracketedName_cons rfl, callShape?]
    cases first.name? <;>
      cases bracket.isOperator .openParenthesis && closesAtEnd (first :: bracket :: rest) 1 <;> rfl

theorem isSingle_eq {test : Token → Bool} {find : List Token → Option Shape}
    (hone : ∀ token, test token = (find [token]).isSome) (hnil : find [] = none)
    (hmore : ∀ first second rest, find (first :: second :: rest) = none) :
    isSingle tokens test = pure (find tokens).isSome := by
  match tokens with
  | [] => simp [isSingle, hnil]
  | [token] => simp [isSingle, hone]
  | first :: second :: rest => simp [isSingle, hmore]

theorem isSome_spreadShape? (token : Token) :
    token.isOperator .spread = (spreadShape? [token]).isSome := by
  simp only [spreadShape?]
  cases token.isOperator .spread <;> rfl

theorem isLiteral_eq (token : Token) :
    token.kind.isLiteral = (Literal.ofToken? token).isSome := by
  unfold Literal.ofToken?
  cases token.kind <;> rfl

/-- A rule applies to the tokens that it recognizes a shape in. -/
theorem applies_eq (tiers : Tiers) (tokens : List Token) (rule : Rule) :
    rule.applies tokens = pure (rule.recognize? tiers tokens).isSome := by
  cases rule with
  | ifBranch => exact congrArg pure (isKeywordAt_branch .ifThen)
  | elseIfBranch => exact congrArg pure (isKeywordAt_branch .elseIf)
  | switch => exact congrArg pure (isKeywordAt_branch .switch)
  | case => exact congrArg pure (isKeywordAt_branch .case)
  | elseBranch => exact congrArg pure (isKeywordAt_fallback .otherwise)
  | default => exact congrArg pure (isKeywordAt_fallback .default)
  | spreadAssignment => exact congrArg pure isOperatorAt_spreadAssignment
  | declaration => exact applies_declaration
  | assignment => exact applies_assignment
  | binary => exact congrArg pure any_outerOperators?
  | group => exact applies_group
  | indexed => exact applies_indexed
  | call => exact applies_call
  | spread => exact isSingle_eq isSome_spreadShape? rfl fun _ _ _ => rfl
  | path => exact isSingle_eq (fun _ => Option.isSome_map.symm) rfl fun _ _ _ => rfl
  | literal =>
    exact isSingle_eq (fun token => (isLiteral_eq token).trans Option.isSome_map.symm) rfl
      fun _ _ _ => rfl
  | name => exact isSingle_eq (fun _ => Option.isSome_map.symm) rfl fun _ _ _ => rfl

theorem first?_eq (tiers : Tiers) (tokens : List Token) (rules : List Rule) :
    first? tokens rules = pure (rules.find? fun rule => (rule.recognize? tiers tokens).isSome) := by
  induction rules with
  | nil => rfl
  | cons rule rules ih =>
    rw [first?, applies_eq tiers, ih, List.find?_cons]
    cases rule.recognize? tiers tokens <;> rfl

end Rule

end DecisionLang
