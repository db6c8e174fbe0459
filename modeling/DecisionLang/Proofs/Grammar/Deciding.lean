import DecisionLang.Proofs.Grammar.Written
import DecisionLang.Proofs.Token.Sealed

/-!
# Tokens that decide for a rule

The converse of `Shape.Found` for the rules of the language: tokens of each form, and the rule that
recognizes them. A rule is tried only where all rules before it have found nothing, so for each form
it is said why no statement is found in it (`Rule.NoStatement`) and no operator outside brackets.
-/

namespace DecisionLang

namespace Token

variable {token : Token}

theorem name?_eq_some_iff {word : String} :
    token.name? = some word ↔ token.kind = .word word ∧ Keyword.ofSpelling? word = none := by
  constructor
  · intro h
    obtain ⟨hword, hname⟩ := Option.filter_eq_some_iff.1 h
    exact ⟨kind_of_word? hword, Option.isNone_iff_eq_none.1 hname⟩
  · rintro ⟨hkind, hname⟩
    simp [name?, word?, hkind, hname]

theorem isKeyword_of_kind {keyword : Keyword} (h : token.kind = keyword.kind) (other : Keyword) :
    token.isKeyword other = decide (keyword = other) := by
  have hkeyword : token.keyword? = some keyword := by
    simp [keyword?, word?, h, Keyword.kind, Keyword.ofSpelling?_spelling]
  rw [isKeyword, hkeyword]
  rfl

theorem isKeyword_of_name? {word : String} (h : token.name? = some word) (keyword : Keyword) :
    token.isKeyword keyword = false := by
  rw [isKeyword, keyword?_eq_none_of_name? h]
  rfl

theorem word?_eq_none_of_operator? {operator : Operator} (h : token.operator? = some operator) :
    token.word? = none ∧ token.path? = none ∧ WrittenType.ofToken? token = none := by
  have hkind := kind_of_isOperator (isOperator_iff.2 h)
  simp [word?, path?, WrittenType.ofToken?, hkind]

/-- A token that opens no block of statements. -/
def OpensNothing (token : Token) : Prop :=
  ∀ keyword, token.isKeyword keyword = true → keyword = .var

theorem OpensNothing.isKeyword (h : token.OpensNothing) (keyword : Keyword)
    (hvar : keyword ≠ .var) : token.isKeyword keyword = false :=
  Bool.eq_false_iff.2 fun hkeyword => hvar (h keyword hkeyword)

theorem opensNothing_of_word? (h : token.word? = none) : token.OpensNothing := by
  intro keyword hkeyword
  simp [isKeyword, keyword?, h] at hkeyword

theorem opensNothing_of_name? {word : String} (h : token.name? = some word) :
    token.OpensNothing := by
  intro keyword hkeyword
  rw [isKeyword_of_name? h] at hkeyword
  cases hkeyword

theorem opensNothing_of_keyword? (h : token.keyword? = none) : token.OpensNothing := by
  intro keyword hkeyword
  simp [isKeyword, h] at hkeyword

/-- The only reserved word that is a type is the one for an implicit type. -/
theorem opensNothing_of_ofToken? {type : WrittenType} (h : WrittenType.ofToken? token = some type) :
    token.OpensNothing := by
  unfold WrittenType.ofToken? at h
  split at h
  · next text hkind =>
    have hkeyword : token.keyword? = Keyword.ofSpelling? text := by simp [keyword?, word?, hkind]
    split at h
    · next hvar =>
      intro keyword hfound
      rw [isKeyword, hkeyword, hvar, Keyword.ofSpelling?_spelling, beq_iff_eq] at hfound
      exact (Option.some.inj hfound).symm
    · split at h
      · next kind hprimitive =>
        have hspelling := List.find?_some hprimitive
        refine opensNothing_of_keyword? ?_
        rw [hkeyword, ← beq_iff_eq.1 hspelling]
        cases kind <;> decide
      · obtain ⟨name, hname, _⟩ := Option.map_eq_some_iff.1 h
        exact opensNothing_of_name? hname
  · next hkind => exact opensNothing_of_word? (by simp [word?, hkind])
  · cases h

end Token

namespace Rule

def statements : List Rule :=
  [ifBranch, elseIfBranch, elseBranch, switch, case, default, spreadAssignment, declaration,
    assignment]

/-- The rules for single values, which are tried after all others. -/
def values : List Rule := [group, indexed, call, spread, path, literal, name]

theorem standard_eq : standard = statements ++ binary :: values := rfl

/-- No statement is recognized. -/
def NoStatement (tokens : List Token) : Prop :=
  ∀ rule ∈ statements, rule.recognize? Tiers.standard tokens = none

variable {first second third : Token} {rest : List Token} {operator : Operator}

theorem branchShape?_of_opensNothing (h : first.OpensNothing) (kind : Branch) :
    branchShape? kind (first :: rest) = none := by
  have hkeyword : first.isKeyword kind.keyword = false :=
    h.isKeyword _ (by cases kind <;> decide)
  simp [branchShape?, hkeyword]

theorem fallbackShape?_of_opensNothing (h : first.OpensNothing) (kind : Fallback) :
    fallbackShape? kind (first :: rest) = none := by
  have hkeyword : first.isKeyword kind.keyword = false :=
    h.isKeyword _ (by cases kind <;> decide)
  simp [fallbackShape?, hkeyword]

/-- Behind a token that opens nothing, there are three statements that may be found. -/
theorem noStatement_of_opensNothing (hfirst : first.OpensNothing)
    (hspread : spreadAssignmentShape? (first :: rest) = none)
    (hdeclaration : declarationShape? (first :: rest) = none)
    (hassignment : assignmentShape? (first :: rest) = none) : NoStatement (first :: rest) := by
  intro rule hrule
  simp only [statements, List.mem_cons, List.not_mem_nil, or_false] at hrule
  rcases hrule with rfl | rfl | rfl | rfl | rfl | rfl | rfl | rfl | rfl
  · exact branchShape?_of_opensNothing hfirst .ifThen
  · exact branchShape?_of_opensNothing hfirst .elseIf
  · exact fallbackShape?_of_opensNothing hfirst .otherwise
  · exact branchShape?_of_opensNothing hfirst .switch
  · exact branchShape?_of_opensNothing hfirst .case
  · exact fallbackShape?_of_opensNothing hfirst .default
  · exact hspread
  · exact hdeclaration
  · exact hassignment

theorem noStatement_of_operator? (h : first.operator? = some operator)
    (hspread : operator ≠ .spread) : NoStatement (first :: rest) := by
  obtain ⟨hword, hpath, htype⟩ := Token.word?_eq_none_of_operator? h
  apply noStatement_of_opensNothing (Token.opensNothing_of_word? hword)
  · cases rest <;> simp [spreadAssignmentShape?, Token.isOperator, h, hspread]
  · rcases rest with _ | ⟨second, _ | ⟨third, rest⟩⟩ <;> simp [declarationShape?, htype]
  · cases rest <;> simp [assignmentShape?, target?, Token.name?, hword, hpath]

theorem noStatement_of_second (hfirst : first.OpensNothing) (h : second.operator? = some operator)
    (hassignment : operator ≠ .assignment) : NoStatement (first :: second :: rest) := by
  obtain ⟨hword, _, _⟩ := Token.word?_eq_none_of_operator? h
  have hsign : second.isOperator .assignment = false := by
    simp [Token.isOperator, h, hassignment]
  apply noStatement_of_opensNothing hfirst
  · simp [spreadAssignmentShape?, hsign]
  · cases rest <;> simp [declarationShape?, Token.name?, hword]
  · simp [assignmentShape?, hsign]

theorem noStatement_of_third (hfirst : first.OpensNothing) (hsecond : second.operator? = none)
    (h : third.operator? = some operator) (hassignment : operator ≠ .assignment) :
    NoStatement (first :: second :: third :: rest) := by
  have hsign : second.isOperator .assignment = false := by simp [Token.isOperator, hsecond]
  apply noStatement_of_opensNothing hfirst
  · simp [spreadAssignmentShape?, hsign]
  · simp [declarationShape?, Token.isOperator, h, hassignment]
  · simp [assignmentShape?, hsign]

theorem noStatement_singleton (hfirst : first.OpensNothing) : NoStatement [first] :=
  noStatement_of_opensNothing hfirst rfl rfl rfl

theorem ne_binary_of_statement {rule : Rule} {tiers : Tiers} {tokens left right : List Token}
    {sign : Token} (hrule : rule ∈ statements) :
    rule.recognize? tiers tokens ≠ some (.binary first left sign operator right) := by
  intro h
  simp only [statements, List.mem_cons, List.not_mem_nil, or_false] at hrule
  rcases hrule with rfl | rfl | rfl | rfl | rfl | rfl | rfl | rfl | rfl
  all_goals
    simp only [recognize?, branchShape?, fallbackShape?, spreadAssignmentShape?, declarationShape?,
      assignmentShape?] at h
    split at h <;> simp [Option.bind_eq_some_iff] at h

/-- Where the rule for binary expressions decides, no statement was recognized. -/
theorem noStatement_of_recognize? {tokens left right : List Token} {sign : Token}
    (h : Grammar.standard.recognize? tokens = some (.binary first left sign operator right)) :
    NoStatement tokens := by
  refine List.findSome?_eq_none_iff.1 ?_
  rw [Grammar.recognize?, Grammar.standard, standard_eq, List.findSome?_append] at h
  cases hfind : statements.findSome? fun rule => rule.recognize? Tiers.standard tokens with
  | none => rfl
  | some shape =>
    rw [hfind, Option.some_or] at h
    cases h
    obtain ⟨rule, hrule, hfound⟩ := List.exists_of_findSome?_eq_some hfind
    exact absurd hfound (ne_binary_of_statement hrule)

/-- Statements that take in whatever follows are recognized with it too. -/
theorem not_noStatement_branch {kind : Branch} (h : first.isKeyword kind.keyword = true) :
    ¬NoStatement (first :: rest) := by
  intro hnone
  have hrule (rule : Rule) (hrule : rule ∈ statements) := hnone rule hrule
  cases kind with
  | ifThen => simpa [recognize?, branchShape?, h] using hrule .ifBranch (by decide)
  | elseIf => simpa [recognize?, branchShape?, h] using hrule .elseIfBranch (by decide)
  | switch => simpa [recognize?, branchShape?, h] using hrule .switch (by decide)
  | case => simpa [recognize?, branchShape?, h] using hrule .case (by decide)

theorem not_noStatement_fallback {kind : Fallback} (h : first.isKeyword kind.keyword = true) :
    ¬NoStatement (first :: rest) := by
  intro hnone
  have hrule (rule : Rule) (hrule : rule ∈ statements) := hnone rule hrule
  cases kind with
  | otherwise => simpa [recognize?, fallbackShape?, h] using hrule .elseBranch (by decide)
  | default => simpa [recognize?, fallbackShape?, h] using hrule .default (by decide)

theorem not_noStatement_spreadAssignment (hfirst : first.isOperator .spread = true)
    (hsecond : second.isOperator .assignment = true) : ¬NoStatement (first :: second :: rest) := by
  intro hnone
  simpa [recognize?, spreadAssignmentShape?, hfirst, hsecond] using
    hnone .spreadAssignment (by decide)

theorem not_noStatement_declaration {type : WrittenType} {word : String}
    (htype : WrittenType.ofToken? first = some type) (hname : second.name? = some word)
    (hthird : third.isOperator .assignment = true) :
    ¬NoStatement (first :: second :: third :: rest) := by
  intro hnone
  simpa [recognize?, declarationShape?, htype, hname, hthird] using
    hnone .declaration (by decide)

theorem not_noStatement_assignment {target : Target} (htarget : target? first = some target)
    (hsecond : second.isOperator .assignment = true) : ¬NoStatement (first :: second :: rest) := by
  intro hnone
  simpa [recognize?, assignmentShape?, htarget, hsecond] using hnone .assignment (by decide)

end Rule

namespace Grammar

open Rule

variable {first second third last sign : Token} {tokens rest left right inner : List Token}
  {operator : Operator}

/-! ### Statements -/

theorem recognize?_branch {kind : Branch} (h : first.kind = kind.keyword.kind) :
    standard.recognize? (first :: rest) = some (.branch kind first rest) := by
  have hkeyword := Token.isKeyword_of_kind h
  cases kind <;>
    simp [recognize?, standard, Rule.standard, List.findSome?, Rule.recognize?, branchShape?,
      fallbackShape?, Branch.keyword, Fallback.keyword, hkeyword]

theorem recognize?_fallback {kind : Fallback} (h : first.kind = kind.keyword.kind) :
    standard.recognize? (first :: rest) = some (.fallback kind first rest) := by
  have hkeyword := Token.isKeyword_of_kind h
  cases kind <;>
    simp [recognize?, standard, Rule.standard, List.findSome?, Rule.recognize?, branchShape?,
      fallbackShape?, Branch.keyword, Fallback.keyword, hkeyword]

theorem recognize?_spreadAssignment (hfirst : first.isOperator .spread = true)
    (hsign : sign.isOperator .assignment = true) :
    standard.recognize? (first :: sign :: rest) = some (.spreadAssignment first sign rest) := by
  obtain ⟨hword, hpath, htype⟩ :=
    Token.word?_eq_none_of_operator? (Token.isOperator_iff.1 hfirst)
  have hkeyword (keyword : Keyword) : first.isKeyword keyword = false := by
    simp [Token.isKeyword, Token.keyword?, hword]
  simp [recognize?, standard, Rule.standard, List.findSome?, Rule.recognize?, branchShape?,
    fallbackShape?, spreadAssignmentShape?, hkeyword, hfirst, hsign]

theorem recognize?_declaration {type : WrittenType} {word : String}
    (hfirst : first.OpensNothing) (htype : WrittenType.ofToken? first = some type)
    (hname : second.name? = some word) :
    standard.recognize? [first, second] = some (.declaration first type word) := by
  have hkeyword := hfirst.isKeyword
  have hspread : first.isOperator .spread = false := by
    simp [Token.isOperator, Token.operator?_eq_none_of_ofToken? htype]
  simp [recognize?, standard, Rule.standard, List.findSome?, Rule.recognize?, branchShape?,
    fallbackShape?, spreadAssignmentShape?, declarationShape?, Branch.keyword, Fallback.keyword,
    hkeyword, hspread, htype, hname]

theorem recognize?_declarationWith {type : WrittenType} {word : String}
    (hfirst : first.OpensNothing) (htype : WrittenType.ofToken? first = some type)
    (hname : second.name? = some word) (hsign : sign.isOperator .assignment = true) :
    standard.recognize? (first :: second :: sign :: rest) =
      some (.declarationWith first type word sign rest) := by
  have hkeyword := hfirst.isKeyword
  have hspread : first.isOperator .spread = false := by
    simp [Token.isOperator, Token.operator?_eq_none_of_ofToken? htype]
  simp [recognize?, standard, Rule.standard, List.findSome?, Rule.recognize?, branchShape?,
    fallbackShape?, spreadAssignmentShape?, declarationShape?, Branch.keyword, Fallback.keyword,
    hkeyword, hspread, htype, hname, hsign]

theorem recognize?_assignment {target : Target} (hfirst : first.OpensNothing)
    (htarget : target? first = some target) (hsign : sign.isOperator .assignment = true) :
    standard.recognize? (first :: sign :: rest) = some (.assignment first target sign rest) := by
  have hkeyword := hfirst.isKeyword
  have hspread : first.isOperator .spread = false := by
    simp [Token.isOperator, Token.operator?_eq_none_of_target? htarget]
  have hname : sign.name? = none := by
    simp [Token.name?, (Token.word?_eq_none_of_operator? (Token.isOperator_iff.1 hsign)).1]
  cases rest <;>
    simp [recognize?, standard, Rule.standard, List.findSome?, Rule.recognize?, branchShape?,
      fallbackShape?, spreadAssignmentShape?, declarationShape?, assignmentShape?, Branch.keyword,
      Fallback.keyword, hkeyword, hspread, hname, htarget, hsign]

/-! ### Binary expressions and values -/

theorem recognize?_value (hstatement : NoStatement tokens)
    (hsealed : TokenKind.Sealed (tokens.map Token.kind)) :
    standard.recognize? tokens =
      values.findSome? fun rule => rule.recognize? Tiers.standard tokens := by
  have hbinary : Rule.binary.recognize? Tiers.standard tokens = none := by
    simp only [Rule.recognize?, binaryShape?, Token.outerOperators?_of_sealed hsealed]
    split <;> simp_all
  have hnone := List.findSome?_eq_none_iff.2 hstatement
  rw [recognize?, standard, standard_eq, List.findSome?_append, hnone, Option.none_or,
    List.findSome?_cons, hbinary]

theorem splitPoint?_singleton (index : Nat) (h : operator.isBinary = true) :
    Tiers.standard.splitPoint? [(index, operator)] = some (index, operator) := by
  cases operator <;> first | rfl | cases h

/-- The operator between two sealed runs is where they are split. -/
theorem recognize?_binary (hstatement : NoStatement (left ++ sign :: right))
    (hleft : TokenKind.Sealed (left.map Token.kind))
    (hright : TokenKind.Sealed (right.map Token.kind)) (hsign : sign.isOperator operator = true)
    (hoperator : operator.isBinary = true) (hfirst : left.head? = some first) :
    standard.recognize? (left ++ sign :: right) =
      some (.binary first left sign operator right) := by
  have hbinary : Rule.binary.recognize? Tiers.standard (left ++ sign :: right) =
      some (.binary first left sign operator right) := by
    simp [Rule.recognize?, binaryShape?, binaryShapeAt?, hfirst,
      Token.outerOperators?_between hleft hright hsign hoperator,
      splitPoint?_singleton _ hoperator]
  have hnone := List.findSome?_eq_none_iff.2 hstatement
  rw [recognize?, standard, standard_eq, List.findSome?_append, hnone, Option.none_or,
    List.findSome?_cons, hbinary]

theorem closesAtEnd_of_nested (before : List Token) (hfirst : first.isOperator operator = true)
    (hopens : operator.opens = true) (hinner : Token.Nested inner) (hlast : last.closes = true) :
    closesAtEnd (before ++ first :: (inner ++ [last])) before.length = true := by
  have hclose := Token.closeAfter?_of_unclosed? hinner hlast
  rw [List.length_nil, Nat.zero_add] at hclose
  rw [closesAtEnd, Token.matchingClose?, List.drop_left, Token.closeAfter?,
    if_pos (Token.opens_of_isOperator hfirst hopens), Nat.zero_add, hclose]
  simp
  omega

theorem recognize?_group (hfirst : first.isOperator .openParenthesis = true)
    (hinner : Token.Nested inner) (hlast : last.closes = true)
    (hsealed : TokenKind.Sealed ((first :: (inner ++ [last])).map Token.kind)) :
    standard.recognize? (first :: (inner ++ [last])) = some (.group first inner) := by
  have hclose : closesAtEnd (first :: (inner ++ [last])) 0 = true :=
    closesAtEnd_of_nested [] hfirst rfl hinner hlast
  rw [recognize?_value (noStatement_of_operator? (Token.isOperator_iff.1 hfirst) (by decide))
    hsealed]
  simp [values, Rule.recognize?, groupShape?, hfirst, hclose]

theorem recognize?_indexed {table : String} (hfirst : first.name? = some table)
    (hsecond : second.isOperator .openBracket = true) (hinner : Token.Nested inner)
    (hlast : last.closes = true)
    (hsealed : TokenKind.Sealed ((first :: second :: (inner ++ [last])).map Token.kind)) :
    standard.recognize? (first :: second :: (inner ++ [last])) =
      some (.indexed first table second inner) := by
  have hclose : closesAtEnd (first :: second :: (inner ++ [last])) 1 = true :=
    closesAtEnd_of_nested [first] hsecond rfl hinner hlast
  have hgroup : first.isOperator .openParenthesis = false := by
    simp [Token.isOperator, Token.operator?_eq_none_of_name? hfirst]
  rw [recognize?_value (noStatement_of_second (Token.opensNothing_of_name? hfirst)
    (Token.isOperator_iff.1 hsecond) (by decide)) hsealed]
  simp [values, Rule.recognize?, groupShape?, indexedShape?, hgroup, hfirst, hsecond, hclose]

theorem recognize?_call {function : String} (hfirst : first.name? = some function)
    (hsecond : second.isOperator .openParenthesis = true) (hinner : Token.Nested inner)
    (hlast : last.closes = true)
    (hsealed : TokenKind.Sealed ((first :: second :: (inner ++ [last])).map Token.kind)) :
    standard.recognize? (first :: second :: (inner ++ [last])) =
      some (.call first function (first :: second :: (inner ++ [last])) inner) := by
  have hoperator := Token.isOperator_iff.1 hsecond
  have hclose : closesAtEnd (first :: second :: (inner ++ [last])) 1 = true :=
    closesAtEnd_of_nested [first] hsecond rfl hinner hlast
  have hgroup : first.isOperator .openParenthesis = false := by
    simp [Token.isOperator, Token.operator?_eq_none_of_name? hfirst]
  have hbracket : second.isOperator .openBracket = false := by
    simp [Token.isOperator, hoperator]
  rw [recognize?_value (noStatement_of_second (Token.opensNothing_of_name? hfirst) hoperator
    (by decide)) hsealed]
  simp [values, Rule.recognize?, groupShape?, indexedShape?, callShape?, hgroup, hfirst, hbracket,
    hsecond, hclose]

theorem recognize?_spread (hfirst : first.isOperator .spread = true) :
    standard.recognize? [first] = some (.spread first) := by
  have hoperator := Token.isOperator_iff.1 hfirst
  have hkind := Token.kind_of_isOperator hfirst
  have hsealed : TokenKind.Sealed ([first].map Token.kind) := by
    rw [List.map_singleton, hkind]
    exact (TokenKind.sealed_cons rfl rfl rfl).2 TokenKind.sealed_nil
  have hgroup : first.isOperator .openParenthesis = false := by
    simp [Token.isOperator, hoperator]
  rw [recognize?_value (noStatement_singleton (Token.opensNothing_of_word?
    (Token.word?_eq_none_of_operator? hoperator).1)) hsealed]
  simp [values, List.findSome?_cons, Rule.recognize?, groupShape?, indexedShape?, callShape?,
    spreadShape?, hgroup, hfirst]

theorem recognize?_singleton (hfirst : first.OpensNothing) (hoperator : first.operator? = none) :
    standard.recognize? [first] =
      [path, literal, name].findSome? fun rule => rule.recognize? Tiers.standard [first] := by
  obtain ⟨hopens, hcloses⟩ := Token.plain_of_operator?_eq_none hoperator
  have hsealed : TokenKind.Sealed ([first].map Token.kind) := by
    rw [List.map_singleton]
    refine (TokenKind.sealed_cons ?_ ?_ ?_).2 TokenKind.sealed_nil
    · rw [Token.closing?_kind, hoperator]
      rfl
    · rw [Token.closes_kind, hcloses]
    · cases hkind : first.kind with
      | operator sign => simp [Token.operator?, hkind] at hoperator
      | _ => rfl
  rw [recognize?_value (noStatement_singleton hfirst) hsealed]
  simp [values, List.findSome?_cons, Rule.recognize?, groupShape?, indexedShape?, callShape?,
    spreadShape?, Token.isOperator, hoperator]

theorem recognize?_path {parts : List String} (h : first.kind = .path parts) :
    standard.recognize? [first] = some (.path first (NamePath.ofParts parts)) := by
  rw [recognize?_singleton (Token.opensNothing_of_word? (by simp [Token.word?, h]))
    (by simp [Token.operator?, h])]
  simp [Rule.recognize?, pathShape?, Token.path?, h]

theorem recognize?_literal {value : Literal} (h : first.kind = value.toKind) :
    standard.recognize? [first] = some (.literal first value) := by
  have hword : first.word? = none := by cases value <;> simp [Token.word?, h, Literal.toKind]
  have hoperator : first.operator? = none := by
    cases value <;> simp [Token.operator?, h, Literal.toKind]
  rw [recognize?_singleton (Token.opensNothing_of_word? hword) hoperator]
  cases value <;>
    simp [Rule.recognize?, pathShape?, literalShape?, Token.path?, Literal.ofToken?, h,
      Literal.toKind]

theorem recognize?_name {word : String} (h : first.name? = some word) :
    standard.recognize? [first] = some (.name first word) := by
  rw [recognize?_singleton (Token.opensNothing_of_name? h) (Token.operator?_eq_none_of_name? h)]
  simp [Rule.recognize?, pathShape?, literalShape?, nameShape?, Token.path?, Literal.ofToken?,
    Token.kind_of_name? h, h]

end Grammar

end DecisionLang
