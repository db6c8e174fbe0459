import DecisionLang.Proofs.Grammar.Brackets
import DecisionLang.Proofs.Tree.Numbers
import DecisionLang.Tree.ExprText
import Mathlib.Data.List.Basic

/-!
# Grouping by tiers

`Grouping` is what binary expressions make of a chain of operands and operators: parentheses, calls
and everything else stand as operands. A grouping is ordered if no operator to the left of another
binds wider than it, and every operator to its right binds closer. For a chain there is no more than
one ordered grouping (`Grouping.Ordered.eq_of_chain_eq`), which is the one that is read
(`Grammar.ordered_of_read`).
-/

namespace DecisionLang

/-- Number of the first tier that lists an operator. -/
def Tiers.tierOf? (tiers : Tiers) (operator : Operator) : Option Nat :=
  tiers.findIdx? fun tier => tier.contains operator

/-- An expression down to what its binary operators combine. -/
inductive Grouping where
  | operand (value : Expr)
  | combine (left : Grouping) (operator : Operator) (right : Grouping)

namespace Grouping

def operator? : Grouping → Option Operator
  | operand _ => none
  | combine _ operator _ => some operator

/-- Operands and operators from left to right. -/
def chain : Grouping → List (Expr ⊕ Operator)
  | operand value => [.inl value]
  | combine left operator right => left.chain ++ .inr operator :: right.chain

/-- Every operator belongs to a tier. An operator below it stands in the same tier or a closer one
on its left side, and in a closer one on its right side. -/
inductive Ordered (tiers : Tiers) : Grouping → Prop
  | operand {value : Expr} : Ordered tiers (operand value)
  | combine {left right : Grouping} {operator : Operator} {tier : Nat}
      (htier : tiers.tierOf? operator = some tier)
      (hleftTier : ∀ below ∈ left.operator?,
        ∃ other, tiers.tierOf? below = some other ∧ tier ≤ other)
      (hrightTier : ∀ below ∈ right.operator?,
        ∃ other, tiers.tierOf? below = some other ∧ tier < other)
      (hleft : Ordered tiers left) (hright : Ordered tiers right) :
      Ordered tiers (combine left operator right)

variable {tiers : Tiers} {whole other : Grouping}

/-- All operators of an ordered grouping bind as close as the one that combines it. -/
theorem Ordered.le_tier (bound : Nat) (h : whole.Ordered tiers)
    (hbound : ∀ operator ∈ whole.operator?,
      ∃ tier, tiers.tierOf? operator = some tier ∧ bound ≤ tier) :
    ∀ operator, Sum.inr operator ∈ whole.chain →
      ∃ tier, tiers.tierOf? operator = some tier ∧ bound ≤ tier := by
  induction h generalizing bound with
  | operand =>
    intro operator hmem
    simp [chain] at hmem
  | @combine left right operator tier htier hleftTier hrightTier _ _ ihleft ihright =>
    obtain ⟨_, htier', hle⟩ := hbound operator rfl
    rw [htier] at htier'
    cases htier'
    intro below hmem
    simp only [chain, List.mem_append, List.mem_cons, Sum.inr.injEq] at hmem
    rcases hmem with hmem | rfl | hmem
    · obtain ⟨_, hbelow, hle'⟩ := ihleft tier hleftTier below hmem
      exact ⟨_, hbelow, Nat.le_trans hle hle'⟩
    · exact ⟨tier, htier, hle⟩
    · obtain ⟨_, hbelow, hle'⟩ := ihright (tier + 1) hrightTier below hmem
      exact ⟨_, hbelow, by omega⟩

/-- The operator of a chain at which an ordered grouping combines cannot stand further to the left
than the one of another ordered grouping. -/
theorem not_length_lt {left right left' right' : Grouping} {operator operator' : Operator}
    (h : (combine left operator right).Ordered tiers)
    (h' : (combine left' operator' right').Ordered tiers)
    (hchain : (combine left operator right).chain = (combine left' operator' right').chain) :
    ¬ left.chain.length < left'.chain.length := by
  intro hlength
  cases h with
  | @combine _ _ _ tier htier hleftTier hrightTier hleft hright =>
  cases h' with
  | @combine _ _ _ tier' htier' hleftTier' hrightTier' hleft' hright' =>
  have hmem : Sum.inr operator ∈ left'.chain := by
    have hat := congrArg (·[left.chain.length]?) hchain
    simp only [chain, List.getElem?_append_left hlength] at hat
    rw [List.getElem?_append_right (Nat.le_refl _), Nat.sub_self] at hat
    exact List.mem_of_getElem? hat.symm
  have hmem' : Sum.inr operator' ∈ right.chain := by
    have hat := congrArg (·[left'.chain.length]?) hchain
    simp only [chain, List.getElem?_append_right (Nat.le_of_lt hlength)] at hat
    rw [List.getElem?_append_right (Nat.le_refl _), Nat.sub_self, List.getElem?_cons,
      if_neg (by omega)] at hat
    exact List.mem_of_getElem? hat
  obtain ⟨_, htier₁, hle⟩ := hleft'.le_tier tier' hleftTier' operator hmem
  obtain ⟨_, htier₂, hlt⟩ := hright.le_tier (tier + 1) hrightTier operator' hmem'
  rw [htier] at htier₁
  rw [htier'] at htier₂
  cases htier₁
  cases htier₂
  omega

theorem length_chain_pos (whole : Grouping) : 0 < whole.chain.length := by
  cases whole with
  | operand value => exact Nat.zero_lt_one
  | combine left operator right =>
    simp only [chain, List.length_append, List.length_cons]
    omega

/-- Something is on both sides of an operator, so a single operand is no chain of that kind. -/
theorem chain_combine_ne_operand (left : Grouping) (operator : Operator) (right : Grouping)
    (value : Expr) : (combine left operator right).chain ≠ (operand value).chain := by
  intro hchain
  have hlength := congrArg List.length hchain
  have := left.length_chain_pos
  have := right.length_chain_pos
  simp only [chain, List.length_cons, List.length_nil, List.length_append] at hlength
  omega

/-- A chain has no more than one ordered grouping. -/
theorem Ordered.eq_of_chain_eq (h : whole.Ordered tiers) (hother : other.Ordered tiers)
    (hchain : whole.chain = other.chain) : whole = other := by
  induction h generalizing other with
  | @operand value =>
    cases hother with
    | operand =>
      simp only [chain, List.cons.injEq, Sum.inl.injEq, and_true] at hchain
      rw [hchain]
    | combine => exact absurd hchain.symm (chain_combine_ne_operand _ _ _ _)
  | @combine left right operator tier htier hleftTier hrightTier hleft hright ihleft ihright =>
    have hwhole := Ordered.combine htier hleftTier hrightTier hleft hright
    cases hother with
    | operand => exact absurd hchain (chain_combine_ne_operand _ _ _ _)
    | @combine left' right' operator' tier' htier' hleftTier' hrightTier' hleft' hright' =>
      have hother := Ordered.combine htier' hleftTier' hrightTier' hleft' hright'
      -- Neither left side is longer, so both chains are cut at the same operator.
      have hle := not_length_lt hwhole hother hchain
      have hge := not_length_lt hother hwhole hchain.symm
      obtain ⟨hleftChain, hrest⟩ := List.append_inj hchain (by omega)
      obtain ⟨hoperator, hrightChain⟩ := List.cons.inj hrest
      cases hoperator
      rw [ihleft hleft' hleftChain, ihright hright' hrightChain]

end Grouping

/-! ### Where expressions are split -/

namespace Tiers

variable {tiers : Tiers} {candidates : List (Nat × Operator)} {point : Nat × Operator}

/-- The split is at an operator of the widest tier present, and at the last one of that tier. -/
theorem exists_of_splitPoint? (h : tiers.splitPoint? candidates = some point) :
    ∃ before after tier, candidates = before ++ point :: after ∧
      tiers.tierOf? point.2 = some tier ∧
      (∀ candidate ∈ before, ∀ other, tiers.tierOf? candidate.2 = some other → tier ≤ other) ∧
      ∀ candidate ∈ after, ∀ other, tiers.tierOf? candidate.2 = some other → tier < other := by
  obtain ⟨wider, tier, closer, htiers, hfind, hwider⟩ := List.findSome?_eq_some_iff.1 h
  obtain ⟨hpoint, later, earlier, hsplit, hlater⟩ := List.find?_eq_some_iff_append.1 hfind
  have hcandidates : candidates = earlier.reverse ++ point :: later.reverse := by
    rw [← List.reverse_reverse candidates, hsplit]
    simp
  have hnone : ∀ candidate ∈ candidates, ∀ listed ∈ wider, ¬ listed.contains candidate.2 := by
    intro candidate hcandidate listed hlisted
    exact List.find?_eq_none.1 (hwider listed hlisted) candidate (List.mem_reverse.2 hcandidate)
  have hle : ∀ candidate ∈ candidates, ∀ other, tiers.tierOf? candidate.2 = some other →
      wider.length ≤ other := by
    intro candidate hcandidate other hother
    by_contra hlt
    obtain ⟨hbound, hlists, _⟩ := List.findIdx?_eq_some_iff_getElem.1 hother
    simp only [htiers, List.getElem_append_left (Nat.lt_of_not_le hlt)] at hlists
    exact hnone candidate hcandidate _ (List.getElem_mem _) hlists
  refine ⟨earlier.reverse, later.reverse, wider.length, hcandidates, ?_, ?_, ?_⟩
  · have hfirst : wider.findIdx? (fun listed => listed.contains point.2) = none :=
      List.findIdx?_eq_none_iff.2 fun listed hlisted =>
        Bool.eq_false_iff.2 (hnone point (by simp [hcandidates]) listed hlisted)
    rw [tierOf?, htiers, List.findIdx?_append, hfirst, List.findIdx?_cons, hpoint]
    simp
  · intro candidate hcandidate
    exact hle candidate (by simp [hcandidates, hcandidate])
  · intro candidate hcandidate other hother
    refine Nat.lt_of_le_of_ne (hle candidate (by simp [hcandidates, hcandidate]) other hother) ?_
    rintro rfl
    obtain ⟨hbound, hlists, _⟩ := List.findIdx?_eq_some_iff_getElem.1 hother
    simp only [htiers, List.getElem_append_right (Nat.le_refl _), Nat.sub_self,
      List.getElem_cons_zero] at hlists
    have hunlisted := hlater candidate (List.mem_reverse.1 hcandidate)
    rw [hlists] at hunlisted
    cases hunlisted

end Tiers

/-! ### Expressions that are read -/

/-- What the binary operators of an expression combine. -/
def Expr.grouping : Expr → Grouping
  | .binary _ left operator right => .combine left.grouping operator right.grouping
  | value => .operand value

theorem Expr.grouping_of_isBinary {value : Expr} (h : value.isBinary = false) :
    value.grouping = .operand value := by
  cases value <;> first | rfl | cases h

theorem Expr.forall_mem_subterms {P : Expr → Prop} {whole : Expr} :
    (∀ part ∈ whole.subterms, P part) ↔
      P whole ∧ ∀ child ∈ whole.children, ∀ part ∈ child.subterms, P part := by
  rw [subterms_eq]
  simp only [List.forall_mem_cons, List.mem_flatMap]
  grind

namespace Grammar

variable {grammar : Grammar} {line : Line} {tokens : List Token} {next after : Nat} {result : Expr}

/-- A whole that combines is split where the tiers say. -/
def SplitBy (tiers : Tiers) (tokens : List Token) (whole : Grouping) : Prop :=
  ∀ operator ∈ whole.operator?, ∃ candidates index,
    Token.outerOperators? tokens = some candidates ∧
      tiers.splitPoint? candidates = some (index, operator)

theorem ordered_of_splitBy {first sign : Token} {left right : List Token} {operator : Operator}
    {leftValue rightValue : Grouping}
    (hfound : (Shape.binary first left sign operator right).Found grammar.tiers tokens)
    (hnested : Token.Nested tokens) (hleft : leftValue.Ordered grammar.tiers)
    (hright : rightValue.Ordered grammar.tiers) (hleftSplit : SplitBy grammar.tiers left leftValue)
    (hrightSplit : SplitBy grammar.tiers right rightValue) :
    (Grouping.combine leftValue operator rightValue).Ordered grammar.tiers ∧
      SplitBy grammar.tiers tokens (.combine leftValue operator rightValue) := by
  obtain ⟨hsign, hbinary, hnestedLeft, _⟩ := hfound.sides_of_binary hnested
  cases hfound with
  | @binary _ _ _ _ _ candidates hcandidates hpoint =>
    refine ⟨?_, fun _ hoperator => ?_⟩
    · obtain ⟨before, after, tier, hsplit, htier, hbefore, hafter⟩ :=
        Tiers.exists_of_splitPoint? hpoint
      obtain ⟨onLeft, onRight, houterLeft, houterRight, hsides⟩ :=
        Token.exists_outerOperators?_sides hcandidates hnestedLeft hsign hbinary
      have hnotLeft : (left.length, operator) ∉ onLeft := fun hmem =>
        Nat.lt_irrefl _ (Token.lt_length_of_mem_outerOperators? houterLeft hmem)
      have hnotRight : (left.length, operator) ∉
          onRight.map fun point => (point.1 + (left.length + 1), point.2) := by
        intro hmem
        obtain ⟨point, _, hpoint⟩ := List.mem_map.1 hmem
        have := congrArg Prod.fst hpoint
        omega
      obtain ⟨rfl, _, rfl⟩ :=
        (List.append_cons_inj_of_notMem hnotLeft hnotRight).1 (hsides.symm.trans hsplit)
      refine .combine htier ?_ ?_ hleft hright
      · intro below hbelow
        obtain ⟨found, index, hfound, hpoint⟩ := hleftSplit below hbelow
        obtain rfl : onLeft = found := Option.some.inj (houterLeft.symm.trans hfound)
        obtain ⟨_, _, other, _, hother, _⟩ := Tiers.exists_of_splitPoint? hpoint
        exact ⟨other, hother, hbefore _ (Tiers.mem_of_splitPoint? hpoint) other hother⟩
      · intro below hbelow
        obtain ⟨found, index, hfound, hpoint⟩ := hrightSplit below hbelow
        obtain rfl : onRight = found := Option.some.inj (houterRight.symm.trans hfound)
        obtain ⟨_, _, other, _, hother, _⟩ := Tiers.exists_of_splitPoint? hpoint
        have hmem := List.mem_map_of_mem (f := fun point : Nat × Operator =>
          (point.1 + (left.length + 1), point.2)) (Tiers.mem_of_splitPoint? hpoint)
        exact ⟨other, hother, hafter _ hmem other hother⟩
    · cases hoperator
      exact ⟨candidates, left.length, hcandidates, hpoint⟩

/-- Expressions that are read are ordered, with everything below them. -/
theorem ordered_of_read (hnested : Token.Nested tokens)
    (h : (grammar.read line tokens).Gives next result after) :
    (∀ part ∈ result.subterms, part.grouping.Ordered grammar.tiers) ∧
      SplitBy grammar.tiers tokens result.grouping := by
  refine read_induction_of_parts Token.Nested (motive := fun tokens _ result _ =>
    (∀ part ∈ result.subterms, part.grouping.Ordered grammar.tiers) ∧
      SplitBy grammar.tiers tokens result.grouping)
    (fun hshape hnested _ => (found_of_recognize? hshape).nested_of_mem_parts hnested) ?_ hnested h
  intro tokens next result after hnested hbuilds
  have hoperand {value : Expr} (hbinary : value.isBinary = false)
      (hchildren : ∀ child ∈ value.children, ∀ part ∈ child.subterms,
        part.grouping.Ordered grammar.tiers) :
      (∀ part ∈ value.subterms, part.grouping.Ordered grammar.tiers) ∧
        SplitBy grammar.tiers tokens value.grouping := by
    rw [Expr.forall_mem_subterms, Expr.grouping_of_isBinary hbinary]
    exact ⟨⟨.operand, hchildren⟩, nofun⟩
  cases hbuilds with
  | @branch kind first subject decision after hshape hsubject =>
    have hbelow := hsubject.1
    cases kind <;> exact hoperand rfl (by simpa [Shape.branchOf, Expr.children] using hbelow)
  | @fallback kind first hshape =>
    cases kind <;> exact hoperand rfl (by simp [Shape.fallbackOf, Expr.children])
  | binary hshape hleft hright =>
    obtain ⟨hbelowLeft, hleftSplit⟩ := hleft
    obtain ⟨hbelowRight, hrightSplit⟩ := hright
    obtain ⟨hordered, hsplit⟩ := ordered_of_splitBy (found_of_recognize? hshape) hnested
      (hbelowLeft _ (Expr.mem_subterms_self _)) (hbelowRight _ (Expr.mem_subterms_self _))
      hleftSplit hrightSplit
    refine ⟨Expr.forall_mem_subterms.2 ⟨hordered, ?_⟩, hsplit⟩
    simpa [Expr.children] using ⟨hbelowLeft, hbelowRight⟩
  | @assignment first target sign value offered after hshape hvalue =>
    have hbelow := hvalue.1
    have htarget : (Shape.targetOf target ⟨next, line.tokenReference first⟩).subterms =
        [Shape.targetOf target ⟨next, line.tokenReference first⟩] := by
      cases target <;> simp [Shape.targetOf, Expr.subterms_eq, Expr.children]
    have htargetOrdered : (Shape.targetOf target
        ⟨next, line.tokenReference first⟩).grouping.Ordered grammar.tiers := by
      cases target <;> exact .operand
    refine hoperand rfl ?_
    simpa [Expr.children, htarget, htargetOrdered] using hbelow
  | make | declaration | spread | path | literal | name =>
    exact hoperand rfl (by simp [Expr.children])
  | spreadAssignment hshape hinner | declarationWith hshape hinner | group hshape hinner
  | indexed hshape hinner =>
    have hbelow := hinner.1
    exact hoperand rfl (by simpa [Expr.children] using hbelow)
  | extract hshape _ harguments hinner =>
    have hbelow := hinner.1
    exact hoperand rfl (by simpa [Expr.children] using hbelow)
  | lookUp pair? result? hshape _ _ _ _ harguments _ hdiscriminator hvalue =>
    have hbelow := hvalue.1
    have hbelow' := hdiscriminator.forall_mem And.left
    refine hoperand rfl (List.forall_mem_append.2 ⟨hbelow', ?_⟩)
    simpa using hbelow
  | call hshape _ _ harguments =>
    exact hoperand rfl (harguments.forall_mem And.left)

/-- Whatever is read says what its tokens say, and says it the only way the tiers allow: it is
written back as the same tokens, and every chain of operators in it is grouped as its one ordered
grouping. Scanned tokens are proper (`Token.isProper_of_scan`); a path of a single name would be
taken for that name. -/
theorem faithful_of_read (hproper : ∀ token ∈ tokens, token.IsProper)
    (hnested : Token.Nested tokens) (h : (grammar.read line tokens).Gives next result after) :
    result.kinds = tokens.map Token.kind ∧
      ∀ part ∈ result.subterms, part.grouping.Ordered grammar.tiers ∧
        ∀ other : Grouping, other.Ordered grammar.tiers →
          other.chain = part.grouping.chain → other = part.grouping := by
  refine ⟨kinds_of_read hproper hnested h, fun part hpart => ?_⟩
  have hordered := (ordered_of_read hnested h).1 part hpart
  exact ⟨hordered, fun other hother hchain => hother.eq_of_chain_eq hordered hchain⟩

/-- The line `a - b - f(c, d.e) * t[x]`. -/
def chainLine : Line :=
  .ofTokens "main" 0 "a - b - f(c, d.e) * t[x]" <|
    [.word "a", .operator .subtraction, .word "b", .operator .subtraction, .word "f",
      .operator .openParenthesis, .word "c", .operator .argumentSeparator, .path ["d", "e"],
      .operator .closeParenthesis, .operator .multiplication, .word "t", .operator .openBracket,
      .word "x", .operator .closeBracket].map (⟨·, 1⟩)

theorem faithful_of_read_chainLine :
    (∀ token ∈ chainLine.tokens, token.IsProper) ∧ Token.Nested chainLine.tokens ∧
      ∃ result after, (standard.read chainLine chainLine.tokens).Gives 0 result after ∧
        result.kinds = chainLine.tokens.map Token.kind ∧
          ∀ part ∈ result.subterms, part.grouping.Ordered Tiers.standard ∧
            ∀ other : Grouping, other.Ordered Tiers.standard →
              other.chain = part.grouping.chain → other = part.grouping := by
  have hproper : ∀ token ∈ chainLine.tokens, token.IsProper := by
    simp [chainLine, Line.ofTokens, Line.isComment, Token.IsProper, TokenKind.IsProper]
  have hnested : Token.Nested chainLine.tokens := by decide
  have hread : ((standard.read chainLine chainLine.tokens).run.run 0).1.isOk = true := by
    decide +kernel
  obtain ⟨result, after, h⟩ := Numbered.exists_gives hread
  exact ⟨hproper, hnested, result, after, h, faithful_of_read hproper hnested h⟩

end Grammar

end DecisionLang
