import DecisionLang.Grammar
import DecisionLang.Proofs.Token.Nesting

/-!
# What rules recognize

`Shape.Found` has one case for each shape: the tokens it was found in, told apart into those that
decide for the rule and the parts that are left to be read. No token is left out, which is what
`found_of_recognize?` says for every rule of a grammar.
-/

namespace DecisionLang

/-- Tokens and the shape that a rule finds in them. -/
inductive Shape.Found (tiers : Tiers) : List Token → Shape → Prop
  | branch {kind : Branch} {first : Token} {subject : List Token}
      (hfirst : first.isKeyword kind.keyword = true) :
      Found tiers (first :: subject) (.branch kind first subject)
  | fallback {kind : Fallback} {first : Token} {rest : List Token}
      (hfirst : first.isKeyword kind.keyword = true) :
      Found tiers (first :: rest) (.fallback kind first rest)
  | spreadAssignment {first sign : Token} {invoked : List Token}
      (hfirst : first.isOperator .spread = true) (hsign : sign.isOperator .assignment = true) :
      Found tiers (first :: sign :: invoked) (.spreadAssignment first sign invoked)
  | declaration {first second : Token} {type : WrittenType} {name : String}
      (htype : WrittenType.ofToken? first = some type) (hname : second.name? = some name) :
      Found tiers [first, second] (.declaration first type name)
  | declarationWith {first second sign : Token} {type : WrittenType} {name : String}
      {value : List Token} (htype : WrittenType.ofToken? first = some type)
      (hname : second.name? = some name) (hsign : sign.isOperator .assignment = true) :
      Found tiers (first :: second :: sign :: value)
        (.declarationWith first type name sign value)
  | assignment {first sign : Token} {target : Target} {value : List Token}
      (htarget : Rule.target? first = some target) (hsign : sign.isOperator .assignment = true) :
      Found tiers (first :: sign :: value) (.assignment first target sign value)
  | binary {first sign : Token} {left right : List Token} {operator : Operator}
      {candidates : List (Nat × Operator)}
      (hcandidates : Token.outerOperators? (left ++ sign :: right) = some candidates)
      (hpoint : tiers.splitPoint? candidates = some (left.length, operator)) :
      Found tiers (left ++ sign :: right) (.binary first left sign operator right)
  | unplaced {first : Token} {tokens : List Token} : Found tiers tokens (.unplaced first tokens)
  | group {first last : Token} {inner : List Token}
      (hfirst : first.isOperator .openParenthesis = true)
      (hclose : Token.closeAfter? 1 (inner ++ [last]) = some inner.length) :
      Found tiers (first :: inner ++ [last]) (.group first inner)
  | indexed {first bracket last : Token} {table : String} {index : List Token}
      (htable : first.name? = some table) (hbracket : bracket.isOperator .openBracket = true)
      (hclose : Token.closeAfter? 1 (index ++ [last]) = some index.length) :
      Found tiers (first :: bracket :: index ++ [last]) (.indexed first table bracket index)
  | call {first bracket last : Token} {function : String} {inner : List Token}
      (hfunction : first.name? = some function)
      (hbracket : bracket.isOperator .openParenthesis = true)
      (hclose : Token.closeAfter? 1 (inner ++ [last]) = some inner.length) :
      Found tiers (first :: bracket :: inner ++ [last])
        (.call first function (first :: bracket :: inner ++ [last]) inner)
  | spread {first : Token} (hfirst : first.isOperator .spread = true) :
      Found tiers [first] (.spread first)
  | path {first : Token} {parts : List String} (hparts : first.path? = some parts) :
      Found tiers [first] (.path first (NamePath.ofParts parts))
  | literal {first : Token} {value : Literal} (hvalue : Literal.ofToken? first = some value) :
      Found tiers [first] (.literal first value)
  | name {first : Token} {word : String} (hword : first.name? = some word) :
      Found tiers [first] (.name first word)

namespace Rule

variable {tiers : Tiers} {tokens rest : List Token} {first : Token} {shape : Shape}

/-- A bracket that closes at the end has its counterpart as the last token. -/
theorem exists_inner_of_closesAtEnd (before : List Token) {operator : Operator}
    (hfirst : first.isOperator operator = true) (hopens : operator.opens = true)
    (h : closesAtEnd (before ++ first :: rest) before.length = true) :
    ∃ last, rest = rest.dropLast ++ [last] ∧
      Token.closeAfter? 1 (rest.dropLast ++ [last]) = some rest.dropLast.length := by
  rw [closesAtEnd, Token.matchingClose?, List.drop_left, beq_iff_eq, Token.closeAfter?,
    if_pos (Token.opens_of_isOperator hfirst hopens), Nat.zero_add, Option.map_map, Option.map_eq_some_iff] at h
  obtain ⟨distance, hdistance, hlength⟩ := h
  simp only [Function.comp_apply, List.length_append, List.length_cons] at hlength
  obtain ⟨init, last, rfl⟩ : ∃ init last, rest = init ++ [last] := by
    rcases List.eq_nil_or_concat rest with rfl | ⟨init, last, rfl⟩
    · cases hdistance
    · exact ⟨init, last, by simp⟩
  simp only [List.length_append, List.length_cons, List.length_nil] at hlength
  refine ⟨last, by simp, ?_⟩
  rw [List.dropLast_concat, hdistance]
  congr 1
  omega

theorem found_of_branchShape? {kind : Branch} (h : branchShape? kind tokens = some shape) :
    shape.Found tiers tokens := by
  unfold branchShape? at h
  split at h
  · simp only [Option.ite_none_right_eq_some, Option.some.injEq] at h
    obtain ⟨hfirst, rfl⟩ := h
    exact .branch hfirst
  · cases h

theorem found_of_fallbackShape? {kind : Fallback} (h : fallbackShape? kind tokens = some shape) :
    shape.Found tiers tokens := by
  unfold fallbackShape? at h
  split at h
  · simp only [Option.ite_none_right_eq_some, Option.some.injEq] at h
    obtain ⟨hfirst, rfl⟩ := h
    exact .fallback hfirst
  · cases h

theorem found_of_spreadAssignmentShape? (h : spreadAssignmentShape? tokens = some shape) :
    shape.Found tiers tokens := by
  unfold spreadAssignmentShape? at h
  split at h
  · simp only [Option.ite_none_right_eq_some, Option.some.injEq, Bool.and_eq_true] at h
    obtain ⟨⟨hfirst, hsign⟩, rfl⟩ := h
    exact .spreadAssignment hfirst hsign
  · cases h

theorem found_of_declarationShape? (h : declarationShape? tokens = some shape) :
    shape.Found tiers tokens := by
  unfold declarationShape? at h
  split at h
  · simp only [Option.bind_eq_bind, Option.bind_eq_some_iff] at h
    obtain ⟨type, htype, name, hname, h⟩ := h
    cases h
    exact .declaration htype hname
  · simp only [Option.bind_eq_bind, Option.bind_eq_some_iff] at h
    obtain ⟨type, htype, name, hname, h⟩ := h
    split at h
    · next hsign =>
      cases h
      exact .declarationWith htype hname hsign
    · cases h
  · cases h

theorem found_of_assignmentShape? (h : assignmentShape? tokens = some shape) :
    shape.Found tiers tokens := by
  unfold assignmentShape? at h
  split at h
  · simp only [Option.bind_eq_bind, Option.bind_eq_some_iff] at h
    obtain ⟨target, htarget, h⟩ := h
    split at h
    · next hsign =>
      cases h
      exact .assignment htarget hsign
    · cases h
  · cases h

theorem found_of_binaryShape? (h : binaryShape? tiers tokens = some shape) :
    shape.Found tiers tokens := by
  unfold binaryShape? at h
  split at h
  · next first candidate candidates _ hcandidates =>
    split at h
    · next point hpoint =>
      obtain ⟨index, operator⟩ := point
      unfold binaryShapeAt? at h
      split at h
      · next sign right hdrop =>
        cases h
        have hlt := Token.lt_length_of_mem_outerOperators? hcandidates
          (Tiers.mem_of_splitPoint? hpoint)
        have htokens : tokens.take index ++ sign :: right = tokens := by
          rw [← hdrop, List.take_append_drop]
        have hlength : (tokens.take index).length = index := by
          rw [List.length_take]
          exact Nat.min_eq_left (Nat.le_of_lt hlt)
        rw [← htokens] at hcandidates
        rw [← hlength] at hpoint
        have hfound : (Shape.binary first (tokens.take index) sign operator right).Found tiers
            (tokens.take index ++ sign :: right) := .binary hcandidates hpoint
        rwa [htokens] at hfound
      · cases h
    · cases h
      exact .unplaced
  · cases h

theorem found_of_groupShape? (h : groupShape? tokens = some shape) : shape.Found tiers tokens := by
  unfold groupShape? at h
  split at h
  · simp only [Option.ite_none_right_eq_some, Option.some.injEq, Bool.and_eq_true] at h
    obtain ⟨⟨hfirst, hclose⟩, rfl⟩ := h
    obtain ⟨last, hrest, hclose⟩ := exists_inner_of_closesAtEnd [] hfirst rfl hclose
    have hfound : Shape.Found tiers _ _ := .group hfirst hclose
    rwa [List.cons_append, ← hrest] at hfound
  · cases h

theorem found_of_indexedShape? (h : indexedShape? tokens = some shape) :
    shape.Found tiers tokens := by
  unfold indexedShape? at h
  split at h
  · simp only [Option.bind_eq_bind, Option.bind_eq_some_iff] at h
    obtain ⟨table, htable, h⟩ := h
    split at h
    · next hbracket =>
      cases h
      rw [Bool.and_eq_true] at hbracket
      obtain ⟨hbracket, hclose⟩ := hbracket
      obtain ⟨last, hrest, hclose⟩ := exists_inner_of_closesAtEnd [_] hbracket rfl hclose
      have hfound : Shape.Found tiers _ _ := .indexed htable hbracket hclose
      rwa [List.cons_append, List.cons_append, ← hrest] at hfound
    · cases h
  · cases h

theorem found_of_callShape? (h : callShape? tokens = some shape) : shape.Found tiers tokens := by
  unfold callShape? at h
  split at h
  · simp only [Option.bind_eq_bind, Option.bind_eq_some_iff] at h
    obtain ⟨function, hfunction, h⟩ := h
    split at h
    · next hbracket =>
      cases h
      rw [Bool.and_eq_true] at hbracket
      obtain ⟨hbracket, hclose⟩ := hbracket
      obtain ⟨last, hrest, hclose⟩ := exists_inner_of_closesAtEnd [_] hbracket rfl hclose
      have hfound : Shape.Found tiers _ _ := .call hfunction hbracket hclose
      rwa [List.cons_append, List.cons_append, ← hrest] at hfound
    · cases h
  · cases h

theorem found_of_singleShape? {rule : Rule} (hrule : rule ∈ [spread, path, literal, name])
    (h : rule.recognize? tiers tokens = some shape) : shape.Found tiers tokens := by
  simp only [List.mem_cons, List.not_mem_nil, or_false] at hrule
  rcases hrule with rfl | rfl | rfl | rfl <;>
    simp only [recognize?, spreadShape?, pathShape?, literalShape?, nameShape?] at h <;>
    split at h <;>
    simp only [Option.ite_none_right_eq_some, Option.map_eq_some_iff, Option.some.injEq,
      reduceCtorEq] at h
  · obtain ⟨hfirst, rfl⟩ := h
    exact .spread hfirst
  · obtain ⟨parts, hparts, rfl⟩ := h
    exact .path hparts
  · obtain ⟨value, hvalue, rfl⟩ := h
    exact .literal hvalue
  · obtain ⟨word, hword, rfl⟩ := h
    exact .name hword

/-- The shape that a rule recognizes is found in all of the tokens. -/
theorem found_of_recognize? {rule : Rule} (h : rule.recognize? tiers tokens = some shape) :
    shape.Found tiers tokens := by
  cases rule with
  | ifBranch | elseIfBranch | switch | case => exact found_of_branchShape? h
  | elseBranch | default => exact found_of_fallbackShape? h
  | spreadAssignment => exact found_of_spreadAssignmentShape? h
  | declaration => exact found_of_declarationShape? h
  | assignment => exact found_of_assignmentShape? h
  | binary => exact found_of_binaryShape? h
  | group => exact found_of_groupShape? h
  | indexed => exact found_of_indexedShape? h
  | call => exact found_of_callShape? h
  | spread | path | literal | name => exact found_of_singleShape? (by simp) h

end Rule

theorem Grammar.found_of_recognize? {grammar : Grammar} {tokens : List Token} {shape : Shape}
    (h : grammar.recognize? tokens = some shape) : shape.Found grammar.tiers tokens := by
  obtain ⟨rule, _, hrule⟩ := List.exists_of_findSome?_eq_some h
  exact Rule.found_of_recognize? hrule

end DecisionLang
