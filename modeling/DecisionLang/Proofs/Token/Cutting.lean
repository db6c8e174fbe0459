import DecisionLang.Proofs.Token.Level

/-!
# Cutting at separators

Arguments are what is left of a run of tokens if it is cut at every separator outside brackets. The
cut goes by counting, where a bracket that closes nothing is passed over; this finds the places
where no bracket is open in any run of tokens, whether its brackets balance or not. Main statement:
`Token.brackets_by_level`, for arguments and the other questions about brackets.
-/

namespace DecisionLang.Token

/-- Pieces with separators between them. -/
def rejoin : List (List Token) → List Token → List Token
  | piece :: pieces, separator :: separators => piece ++ separator :: rejoin pieces separators
  | pieces, _ => pieces.flatten

/-- What a run of tokens is cut into at all separators outside brackets. -/
structure IsSplit (tokens : List Token) (pieces : List (List Token)) : Prop where
  /-- Nothing is lost but one separator between two pieces. -/
  rejoined : ∃ separators, (∀ separator ∈ separators,
    separator.isOperator .argumentSeparator = true) ∧ separators.length = pieces.length - 1 ∧
    rejoin pieces separators = tokens
  /-- Cuts are made outside brackets. -/
  outside : ∀ piece ∈ pieces.dropLast, NoneOpen piece
  /-- No separator outside brackets is left. -/
  inside : ∀ piece ∈ pieces, ∀ index,
    piece[index]?.any (isOperator .argumentSeparator) = true → ¬ NoneOpen (piece.take index)
  balanced : Balanced tokens → ∀ piece ∈ pieces, Balanced piece

variable {token : Token} {tokens rest : List Token}

/-! ### Counting open brackets -/

/-- Open brackets behind one more token. A bracket that closes nothing is passed over. -/
def deepen (depth : Nat) (token : Token) : Nat :=
  if token.opens then depth + 1 else if token.closes then depth - 1 else depth

theorem natCast_deepen (depth : Nat) (token : Token) :
    ((deepen depth token : Nat) : Int) = max (depth + token.weight) 0 := by
  rw [deepen, weight]
  split
  · omega
  · split <;> omega

/-- No bracket is open where counting, with closing brackets passed over, ends at zero. -/
theorem foldl_deepen_eq_zero_iff (depth : Nat) (tokens : List Token) :
    tokens.foldl deepen depth = 0 ↔ depth + level tokens ≤ 0 ∧ NoneOpen tokens := by
  induction tokens generalizing depth with
  | nil => simp [NoneOpen]
  | cons token rest ih =>
    have hcons : NoneOpen (token :: rest) ↔ token.weight + level rest ≤ 0 ∧ NoneOpen rest := by
      simp [NoneOpen, List.suffix_cons_iff, or_imp, forall_and]
    have hdeepen := natCast_deepen depth token
    rw [List.foldl_cons, ih, hcons, ← and_assoc, level_cons]
    refine and_congr_left fun hrest => ?_
    have hlevel := hrest rest List.suffix_rfl
    omega

theorem noneOpen_iff : NoneOpen tokens ↔ tokens.foldl deepen 0 = 0 := by
  rw [foldl_deepen_eq_zero_iff]
  refine ⟨fun h => ⟨?_, h⟩, And.right⟩
  simpa using h tokens List.suffix_rfl

/-! ### The pieces -/

/-- Every separator in a piece stands inside a bracket, `depth` of which are open in front. -/
def SeparatorsInside (depth : Nat) (piece : List Token) : Prop :=
  ∀ index, piece[index]?.any (isOperator .argumentSeparator) = true →
    (piece.take index).foldl deepen depth ≠ 0

/-- How a run of tokens that has `depth` brackets open in front is cut into pieces. -/
inductive Cuts : Nat → List Token → List (List Token) → Prop
  | last {depth : Nat} {piece : List Token} (hinside : SeparatorsInside depth piece) :
      Cuts depth piece [piece]
  | cut {depth : Nat} {piece rest : List Token} {separator : Token} {pieces : List (List Token)}
      (hinside : SeparatorsInside depth piece) (houtside : piece.foldl deepen depth = 0)
      (hseparator : separator.isOperator .argumentSeparator = true) (hrest : Cuts 0 rest pieces) :
      Cuts depth (piece ++ separator :: rest) (piece :: pieces)

variable {depth : Nat} {piece : List Token} {pieces : List (List Token)}

theorem separatorsInside_nil (depth : Nat) : SeparatorsInside depth [] := by
  simp [SeparatorsInside]

theorem SeparatorsInside.cons
    (htoken : token.isOperator .argumentSeparator = true → depth ≠ 0)
    (h : SeparatorsInside (deepen depth token) piece) :
    SeparatorsInside depth (token :: piece) := by
  intro index hindex
  cases index with
  | zero => exact htoken (by simpa using hindex)
  | succ index => exact h index (by simpa using hindex)

theorem Cuts.cons (htoken : token.isOperator .argumentSeparator = true → depth ≠ 0)
    (h : Cuts (deepen depth token) rest pieces) :
    ∃ piece others, pieces = piece :: others ∧
      Cuts depth (token :: rest) ((token :: piece) :: others) := by
  cases h with
  | last hinside => exact ⟨_, _, rfl, .last (hinside.cons htoken)⟩
  | cut hinside houtside hseparator hrest =>
    exact ⟨_, _, rfl, .cut (hinside.cons htoken) houtside hseparator hrest⟩

theorem cuts_splitOuter (depth : Nat) (tokens : List Token) :
    Cuts depth tokens (splitOuter depth tokens) := by
  induction tokens generalizing depth with
  | nil => exact .last (separatorsInside_nil depth)
  | cons token rest ih =>
    cases hcut : !token.opens && !token.closes && depth == 0 &&
        token.isOperator .argumentSeparator with
    | true =>
      rw [splitOuter, if_pos hcut]
      simp only [Bool.and_eq_true, beq_iff_eq] at hcut
      obtain ⟨⟨-, rfl⟩, hseparator⟩ := hcut
      have hnothing : ([] : List Token).foldl deepen 0 = 0 := rfl
      exact .cut (separatorsInside_nil 0) hnothing hseparator (ih 0)
    | false =>
      have htoken (hseparator : token.isOperator .argumentSeparator = true) : depth ≠ 0 := by
        rintro rfl
        obtain ⟨hopens, hcloses⟩ :=
          plain_of_operator? (isOperator_iff.1 hseparator) (by decide)
        simp [hseparator, hopens, hcloses] at hcut
      obtain ⟨piece, others, hpieces, hcuts⟩ := (ih (deepen depth token)).cons htoken
      rw [splitOuter_cons hcut]
      change Cuts depth (token :: rest)
        ((splitOuter (deepen depth token) rest).modifyHead (token :: ·))
      rw [hpieces]
      exact hcuts

/-- A property of the first piece, before which `depth` brackets are open, and of the others. -/
def EachPiece (holds : Nat → List Token → Prop) (depth : Nat) : List (List Token) → Prop
  | [] => True
  | piece :: others => holds depth piece ∧ ∀ other ∈ others, holds 0 other

theorem eachPiece_zero {holds : Nat → List Token → Prop} :
    EachPiece holds 0 pieces ↔ ∀ piece ∈ pieces, holds 0 piece := by
  cases pieces with
  | nil => simp [EachPiece]
  | cons piece others => simp [EachPiece]

theorem Cuts.inside (h : Cuts depth tokens pieces) : EachPiece SeparatorsInside depth pieces := by
  induction h with
  | last hinside => exact ⟨hinside, by simp⟩
  | cut hinside _ _ _ ih => exact ⟨hinside, eachPiece_zero.1 ih⟩

theorem Cuts.ne_nil (h : Cuts depth tokens pieces) : pieces ≠ [] := by
  cases h <;> exact List.cons_ne_nil _ _

theorem Cuts.outside (h : Cuts depth tokens pieces) :
    EachPiece (fun depth piece => piece.foldl deepen depth = 0) depth pieces.dropLast := by
  induction h with
  | last => exact True.intro
  | cut _ houtside _ hrest ih =>
    rw [List.dropLast_cons_of_ne_nil hrest.ne_nil]
    exact ⟨houtside, eachPiece_zero.1 ih⟩

theorem Cuts.exists_separators (h : Cuts depth tokens pieces) :
    ∃ separators, (∀ separator ∈ separators,
      separator.isOperator .argumentSeparator = true) ∧ separators.length = pieces.length - 1 ∧
      rejoin pieces separators = tokens := by
  induction h with
  | last => exact ⟨[], by simp, rfl, by simp [rejoin]⟩
  | @cut _ piece rest separator pieces _ _ hseparator hrest ih =>
    obtain ⟨separators, hall, hlength, hrejoin⟩ := ih
    refine ⟨separator :: separators, List.forall_mem_cons.2 ⟨hseparator, hall⟩, ?_, ?_⟩
    · have hpos := List.length_pos_iff.2 hrest.ne_nil
      simp only [List.length_cons]
      omega
    · rw [rejoin, hrejoin]

/-- Where no bracket closes too early, none is passed over. -/
theorem foldl_deepen_eq_level (h : ∀ before, before <+: tokens → 0 ≤ (depth : Int) + level before) :
    ((tokens.foldl deepen depth : Nat) : Int) = depth + level tokens := by
  induction tokens generalizing depth with
  | nil => simp
  | cons token rest ih =>
    have hweight : 0 ≤ (depth : Int) + token.weight := by
      simpa using h [token] (by simp)
    have hdeepen : ((deepen depth token : Nat) : Int) = depth + token.weight := by
      rw [natCast_deepen]
      omega
    rw [List.foldl_cons, ih, hdeepen, level_cons, Int.add_assoc]
    intro before hbefore
    rw [hdeepen]
    simpa [Int.add_assoc] using h (token :: before) (List.cons_prefix_cons.2 ⟨rfl, hbefore⟩)

theorem Cuts.balanced (h : Cuts depth tokens pieces) (hbalanced : BalancedFrom depth tokens) :
    EachPiece (fun depth piece => BalancedFrom depth piece) depth pieces := by
  induction h with
  | last => exact ⟨hbalanced, by simp⟩
  | @cut depth piece rest separator pieces _ houtside hseparator _ ih =>
    obtain ⟨hopens, hcloses⟩ := plain_of_operator? (isOperator_iff.1 hseparator) (by decide)
    have hweight : separator.weight = 0 := by simp [weight, hopens, hcloses]
    have hpiece (before : List Token) (hbefore : before <+: piece) :
        0 ≤ (depth : Int) + level before :=
      hbalanced.1 before (hbefore.trans (List.prefix_append _ _))
    have hlevel : (depth : Int) + level piece = 0 := by
      rw [← foldl_deepen_eq_level hpiece, houtside]
      rfl
    refine ⟨⟨hpiece, hlevel⟩, eachPiece_zero.1 (ih ⟨fun before hbefore => ?_, ?_⟩)⟩
    · have := hbalanced.1 (piece ++ separator :: before)
        ((List.prefix_append_right_inj _).2 (List.cons_prefix_cons.2 ⟨rfl, hbefore⟩))
      simp only [level_append, level_cons] at this
      omega
    · have := hbalanced.2
      simp only [level_append, level_cons] at this
      omega

theorem isSplit_arguments (tokens : List Token) : IsSplit tokens (arguments tokens) := by
  unfold arguments
  split
  · next hempty =>
    rw [List.isEmpty_iff.1 hempty]
    exact ⟨⟨[], by simp, rfl, rfl⟩, by simp, by simp, by simp⟩
  · have hcuts := cuts_splitOuter 0 tokens
    refine ⟨hcuts.exists_separators, ?_, ?_, fun hbalanced => ?_⟩
    · simpa only [noneOpen_iff] using eachPiece_zero.1 hcuts.outside
    · exact fun piece hpiece index hindex =>
        mt noneOpen_iff.1 (eachPiece_zero.1 hcuts.inside piece hpiece index hindex)
    · have hpieces := eachPiece_zero.1 (hcuts.balanced (balancedFrom_zero.2 hbalanced))
      exact fun piece hpiece => balancedFrom_zero.1 (hpieces piece hpiece)

/-- Brackets, operators outside them and arguments, by levels. -/
theorem brackets_by_level (tokens : List Token) :
    ((outerOperators? tokens).isSome = true ↔ Balanced tokens) ∧
      (∀ found, outerOperators? tokens = some found → ListsOuter tokens found) ∧
      (∀ index opening, tokens[index]? = some opening → opening.opens = true →
        (∀ close, matchingClose? tokens index = some close ↔
          IsFirst (ReturnsAt tokens index) close) ∧
        (matchingClose? tokens index = none ↔ ∀ stop, ¬ ReturnsAt tokens index stop)) ∧
      IsSplit tokens (arguments tokens) := by
  refine ⟨?_, fun found hfound => listsOuter_outerOperators? hfound,
    fun index opening hopening hopens => ?_, isSplit_arguments tokens⟩
  · rw [outerOperators?, isSome_outerOperatorsFrom?]
    exact balancedFrom_zero
  · have hclose := matchingClose?_eq_some_iff hopening hopens
    exact ⟨hclose, eq_none_iff_of_isFirst hclose⟩

/-- The tokens of `F((A + B), C[D]) + E`. -/
def sumOfCall : List Token :=
  [.word "F", .operator .openParenthesis, .operator .openParenthesis, .word "A",
    .operator .addition, .word "B", .operator .closeParenthesis, .operator .argumentSeparator,
    .word "C", .operator .openBracket, .word "D", .operator .closeBracket,
    .operator .closeParenthesis, .operator .addition, .word "E"].map (⟨·, 1⟩)

theorem brackets_by_level_sumOfCall :
    Balanced sumOfCall ∧ ListsOuter sumOfCall [(13, .addition)] ∧
      IsFirst (ReturnsAt sumOfCall 1) 12 ∧ ∀ argument ∈ arguments sumOfCall, Balanced argument := by
  obtain ⟨hbalanced, hlists, hcloses, hsplit⟩ := brackets_by_level sumOfCall
  have hall : Balanced sumOfCall := hbalanced.1 (by decide)
  have hclose := hcloses 1 ⟨.operator .openParenthesis, 1⟩ (by decide) (by decide)
  exact ⟨hall, hlists _ (by decide), (hclose.1 12).1 (by decide), hsplit.balanced hall⟩

end DecisionLang.Token
