import DecisionLang.Token.Slice

/-!
# Nested brackets

Runs of tokens are taken apart by counting brackets of both kinds alike. Where every bracket is
closed by one of its own kind, counting agrees with a stack of open brackets, so whatever is cut out
is nested again: the two sides of an operator, the inside of a bracket that closes at the end, and
the arguments of a call. Main statements: `exists_split_of_mem_outerOperators?`, `nested_inside`,
`nested_of_mem_arguments` and `intercalate_arguments`.
-/

namespace DecisionLang

def Operator.closing? : Operator → Option Operator
  | openParenthesis => some closeParenthesis
  | openBracket => some closeBracket
  | _ => none

namespace Token

/-- One more token after brackets that are still to be closed, innermost first, each as the bracket
that closes it. None if the token closes nothing, or a bracket of the other kind. -/
def track? (pending : List Operator) (token : Token) : Option (List Operator) :=
  match token.operator?.bind Operator.closing? with
  | some close => some (close :: pending)
  | none =>
    if token.closes then
      match pending with
      | close :: outer => if token.isOperator close then some outer else none
      | [] => none
    else some pending

def unclosed? (pending : List Operator) (tokens : List Token) : Option (List Operator) :=
  tokens.foldlM track? pending

/-- Every bracket is closed by one of its own kind, and the brackets in between are nested too. -/
def Nested (tokens : List Token) : Prop := unclosed? [] tokens = some []

instance (tokens : List Token) : Decidable (Nested tokens) :=
  inferInstanceAs (Decidable (unclosed? [] tokens = some []))

variable {token : Token} {tokens rest : List Token} {pending remaining : List Operator}

@[simp] theorem unclosed?_nil : unclosed? pending [] = some pending := rfl

@[simp] theorem unclosed?_cons :
    unclosed? pending (token :: rest) = (track? pending token).bind (unclosed? · rest) := by
  rw [unclosed?, List.foldlM_cons]
  rfl

theorem isOperator_iff {operator : Operator} :
    token.isOperator operator = true ↔ token.operator? = some operator := by
  simp [isOperator]

theorem kind_of_isOperator {operator : Operator} (h : token.isOperator operator = true) :
    token.kind = .operator operator := by
  unfold isOperator operator? at h
  split at h
  · next sign hkind => simp_all
  · simp at h

theorem opens_of_isOperator {operator : Operator} (h : token.isOperator operator = true)
    (hopens : operator.opens = true) : token.opens = true := by
  simp [opens, isOperator_iff.1 h, hopens]

/-! ### One token -/

/-- What a token is to the brackets around it. -/
inductive Bracketing (token : Token) : Prop
  | opening {close : Operator} (hopens : token.opens = true)
      (htrack : ∀ pending, track? pending token = some (close :: pending))
  | closing (hopens : token.opens = false) (hcloses : token.closes = true)
      (hnil : track? [] token = none)
      (hcons : ∀ close outer, track? (close :: outer) token =
        if token.isOperator close then some outer else none)
  | plain (hopens : token.opens = false) (hcloses : token.closes = false)
      (htrack : ∀ pending, track? pending token = some pending)

theorem bracketing (token : Token) : token.Bracketing := by
  cases hoperator : token.operator? with
  | none =>
    have hcloses : token.closes = false := by simp [closes, hoperator]
    refine .plain (by simp [opens, hoperator]) hcloses fun pending => ?_
    simp [track?, hoperator, hcloses]
  | some operator =>
    have hopens : token.opens = operator.opens := by simp [opens, hoperator]
    have hcloses : token.closes = operator.closes := by simp [closes, hoperator]
    cases hclosing : operator.closing? with
    | some close =>
      have htrack (pending : List Operator) : track? pending token = some (close :: pending) := by
        simp [track?, hoperator, hclosing]
      refine .opening ?_ htrack
      rw [hopens]
      cases operator <;> simp_all [Operator.closing?, Operator.opens]
    | none =>
      have hnone : operator.opens = false := by
        cases operator <;> simp_all [Operator.closing?, Operator.opens]
      rw [hnone] at hopens
      cases hclose : operator.closes with
      | true =>
        rw [hclose] at hcloses
        refine .closing hopens hcloses ?_ fun close outer => ?_
        · simp [track?, hoperator, hclosing, hcloses]
        · simp [track?, hoperator, hclosing, hcloses]
      | false =>
        rw [hclose] at hcloses
        exact .plain hopens hcloses fun pending => by simp [track?, hoperator, hclosing, hcloses]

/-- Open brackets before and after a token that closes no bracket of the other kind. -/
inductive Tracks (token : Token) : List Operator → List Operator → Prop
  | opening {pending : List Operator} (close : Operator) (hopens : token.opens = true) :
      Tracks token pending (close :: pending)
  | closing {close : Operator} {outer : List Operator} (hopens : token.opens = false)
      (hcloses : token.closes = true) : Tracks token (close :: outer) outer
  | plain {pending : List Operator} (hopens : token.opens = false)
      (hcloses : token.closes = false) : Tracks token pending pending

theorem tracks_of_track? (h : track? pending token = some remaining) :
    token.Tracks pending remaining := by
  rcases token.bracketing with ⟨hopens, htrack⟩ | ⟨hopens, hcloses, hnil, hcons⟩ |
    ⟨hopens, hcloses, htrack⟩
  · cases (htrack pending).symm.trans h
    exact .opening _ hopens
  · cases pending with
    | nil => cases hnil.symm.trans h
    | cons close outer =>
      rw [hcons, Option.ite_none_right_eq_some] at h
      cases h.2
      exact .closing hopens hcloses
  · cases (htrack pending).symm.trans h
    exact .plain hopens hcloses

theorem length_of_track? (h : track? pending token = some remaining) :
    remaining.length = if token.opens then pending.length + 1 else if token.closes then
      pending.length - 1 else pending.length := by
  cases tracks_of_track? h with
  | opening _ hopens => simp [hopens]
  | closing hopens hcloses => simp [hopens, hcloses]
  | plain hopens hcloses => simp [hopens, hcloses]

theorem exists_track?_of_unclosed? (h : unclosed? pending (token :: rest) = some remaining) :
    ∃ inner, track? pending token = some inner ∧ unclosed? inner rest = some remaining :=
  Option.bind_eq_some_iff.1 (unclosed?_cons.symm.trans h)

theorem nested_cons (hopens : token.opens = false) (hcloses : token.closes = false) :
    Nested (token :: rest) ↔ Nested rest := by
  rcases token.bracketing with ⟨h, _⟩ | ⟨_, h, _⟩ | ⟨_, _, htrack⟩
  · rw [hopens] at h
    cases h
  · rw [hcloses] at h
    cases h
  · simp [Nested, htrack]

theorem plain_of_operator? {operator : Operator} (hoperator : token.operator? = some operator)
    (hplain : operator.role ≠ .grouping) : token.opens = false ∧ token.closes = false := by
  constructor
  · cases operator <;> simp_all [opens, Operator.opens, Operator.role]
  · cases operator <;> simp_all [closes, Operator.closes, Operator.role]

theorem plain_of_operator?_eq_none (h : token.operator? = none) :
    token.opens = false ∧ token.closes = false := by
  simp [opens, closes, h]

/-! ### Operators outside brackets -/

/-- Tokens around an operator that stands outside all brackets. -/
theorem exists_split_of_mem_outerOperatorsFrom? (pending : List Operator) {index : Nat}
    {found : List (Nat × Operator)} {point : Nat × Operator}
    (hfound : outerOperatorsFrom? index pending.length tokens = some found)
    (hpoint : point ∈ found) (hclosed : unclosed? pending tokens = some remaining) :
    ∃ before sign after, tokens = before ++ sign :: after ∧ index + before.length = point.1 ∧
      sign.operator? = some point.2 ∧ point.2.isBinary = true ∧
      unclosed? pending before = some [] ∧ unclosed? [] after = some remaining := by
  induction tokens generalizing index pending found with
  | nil =>
    unfold outerOperatorsFrom? at hfound
    split at hfound
    · cases hfound
      cases hpoint
    · cases hfound
  | cons token rest ih =>
    obtain ⟨inner, htrack, hrest⟩ := exists_track?_of_unclosed? hclosed
    have hlater {found' : List (Nat × Operator)}
        (hfound' : outerOperatorsFrom? (index + 1) inner.length rest = some found')
        (hpoint' : point ∈ found') :
        ∃ before sign after, token :: rest = before ++ sign :: after ∧
          index + before.length = point.1 ∧ sign.operator? = some point.2 ∧
          point.2.isBinary = true ∧ unclosed? pending before = some [] ∧
          unclosed? [] after = some remaining := by
      obtain ⟨before, sign, after, rfl, hindex, hsign, hbinary, hbefore, hafter⟩ :=
        ih _ hfound' hpoint' hrest
      refine ⟨token :: before, sign, after, rfl, ?_, hsign, hbinary, ?_, hafter⟩
      · simp only [List.length_cons]
        omega
      · rw [unclosed?_cons, htrack, Option.bind_some, hbefore]
    rw [outerOperatorsFrom?.eq_def] at hfound
    cases tracks_of_track? htrack with
    | opening _ hopens =>
      simp only [hopens, if_true] at hfound
      exact hlater hfound hpoint
    | closing hopens hcloses =>
      simp only [hopens, hcloses, Bool.false_eq_true, if_false, if_true] at hfound
      exact hlater hfound hpoint
    | plain hopens hcloses =>
      simp only [hopens, hcloses, Bool.false_eq_true, if_false] at hfound
      split at hfound
      · next operator hfilter =>
        obtain ⟨hoperator, houter⟩ := Option.filter_eq_some_iff.1 hfilter
        obtain ⟨rfl, hbinary⟩ : pending = [] ∧ operator.isBinary = true := by simpa using houter
        obtain ⟨later, hfound', rfl⟩ := Option.map_eq_some_iff.1 hfound
        rcases List.mem_cons.1 hpoint with rfl | hpoint'
        · exact ⟨[], token, rest, rfl, rfl, hoperator, hbinary, rfl, hrest⟩
        · exact hlater hfound' hpoint'
      · exact hlater hfound hpoint

/-- Both sides of an operator that stands outside all brackets are nested. -/
theorem exists_split_of_mem_outerOperators? {found : List (Nat × Operator)}
    {point : Nat × Operator} (hfound : outerOperators? tokens = some found)
    (hpoint : point ∈ found) (hnested : Nested tokens) :
    ∃ before sign after, tokens = before ++ sign :: after ∧ before.length = point.1 ∧
      sign.operator? = some point.2 ∧ point.2.isBinary = true ∧ Nested before ∧ Nested after := by
  obtain ⟨before, sign, after, htokens, hindex, hsign, hbinary, hbefore, hafter⟩ :=
    exists_split_of_mem_outerOperatorsFrom? [] hfound hpoint hnested
  exact ⟨before, sign, after, htokens, by simpa using hindex, hsign, hbinary, hbefore, hafter⟩

theorem outerOperatorsFrom?_add (index offset depth : Nat) (tokens : List Token) :
    outerOperatorsFrom? (index + offset) depth tokens =
      (outerOperatorsFrom? index depth tokens).map
        (List.map fun point => (point.1 + offset, point.2)) := by
  induction tokens generalizing index depth with
  | nil =>
    unfold outerOperatorsFrom?
    split <;> rfl
  | cons token rest ih =>
    have hnext (depth : Nat) : outerOperatorsFrom? (index + offset + 1) depth rest =
        (outerOperatorsFrom? (index + 1) depth rest).map
          (List.map fun point => (point.1 + offset, point.2)) := by
      rw [Nat.add_right_comm, ih]
    rw [outerOperatorsFrom?.eq_def, outerOperatorsFrom?.eq_def index]
    simp only
    split
    · exact hnext _
    · split
      · split
        · rfl
        · exact hnext _
      · split
        · rw [hnext, Option.map_map, Option.map_map]
          rfl
        · exact hnext _

/-- Operators outside brackets, on from a place where no bracket is open. -/
theorem outerOperatorsFrom?_append (index : Nat) (others : List Token)
    (hclosed : unclosed? pending tokens = some []) :
    outerOperatorsFrom? index pending.length (tokens ++ others) =
      (outerOperatorsFrom? index pending.length tokens).bind fun found =>
        (outerOperatorsFrom? (index + tokens.length) 0 others).map (found ++ ·) := by
  induction tokens generalizing index pending with
  | nil =>
    cases hclosed
    simp [outerOperatorsFrom?]
  | cons token rest ih =>
    obtain ⟨inner, htrack, hrest⟩ := exists_track?_of_unclosed? hclosed
    have hnext : outerOperatorsFrom? (index + 1) inner.length (rest ++ others) =
        (outerOperatorsFrom? (index + 1) inner.length rest).bind fun found =>
          (outerOperatorsFrom? (index + (token :: rest).length) 0 others).map (found ++ ·) := by
      rw [ih _ hrest, List.length_cons, Nat.add_right_comm, Nat.add_assoc]
    rw [List.cons_append, outerOperatorsFrom?.eq_def,
      outerOperatorsFrom?.eq_def index _ (token :: rest)]
    cases tracks_of_track? htrack with
    | opening _ hopens =>
      simp only [hopens, if_true]
      exact hnext
    | closing hopens hcloses =>
      simp only [hopens, hcloses, Bool.false_eq_true, if_false, if_true]
      exact hnext
    | plain hopens hcloses =>
      simp only [hopens, hcloses, Bool.false_eq_true, if_false]
      split
      · rw [hnext]
        cases outerOperatorsFrom? (index + 1) pending.length rest with
        | none => rfl
        | some found =>
          cases outerOperatorsFrom? (index + (token :: rest).length) 0 others <;> rfl
      · exact hnext

theorem exists_outerOperators?_sides {left right : List Token} {sign : Token}
    {operator : Operator} {found : List (Nat × Operator)}
    (hfound : outerOperators? (left ++ sign :: right) = some found) (hleft : Nested left)
    (hsign : sign.isOperator operator = true) (hbinary : operator.isBinary = true) :
    ∃ before after, outerOperators? left = some before ∧ outerOperators? right = some after ∧
      found = before ++ (left.length, operator) ::
        after.map fun point => (point.1 + (left.length + 1), point.2) := by
  have hoperator := isOperator_iff.1 hsign
  obtain ⟨hopens, hcloses⟩ :=
    plain_of_operator? hoperator (by rintro hrole; simp [Operator.isBinary, hrole] at hbinary)
  have hsplit := outerOperatorsFrom?_append 0 (sign :: right) hleft
  rw [List.length_nil, Nat.zero_add] at hsplit
  rw [outerOperators?, hsplit, Option.bind_eq_some_iff] at hfound
  obtain ⟨before, hbefore, hfound⟩ := hfound
  obtain ⟨later, hlater, rfl⟩ := Option.map_eq_some_iff.1 hfound
  have hright := outerOperatorsFrom?_add 0 (left.length + 1) 0 right
  rw [Nat.zero_add] at hright
  rw [outerOperatorsFrom?.eq_def] at hlater
  simp only [hopens, hcloses, hoperator, hbinary, Bool.false_eq_true, if_false, Option.filter_some,
    Bool.and_true, beq_self_eq_true, if_true, hright] at hlater
  rw [Option.map_map] at hlater
  obtain ⟨after, hafter, rfl⟩ := Option.map_eq_some_iff.1 hlater
  exact ⟨before, after, hbefore, hafter, rfl⟩

/-! ### The inside of a bracket -/

/-- The bracket that counting finds closes the outermost of the open ones. -/
theorem exists_inside_of_closeAfter? (pending : List Operator) {close : Operator} {distance : Nat}
    (hclose : closeAfter? (pending.length + 1) tokens = some distance)
    (hclosed : unclosed? (pending ++ [close]) tokens = some remaining) :
    ∃ inside last after, tokens = inside ++ last :: after ∧ inside.length = distance ∧
      unclosed? pending inside = some [] ∧ last.isOperator close = true ∧
      unclosed? [] after = some remaining := by
  induction tokens generalizing pending distance with
  | nil => cases hclose
  | cons token rest ih =>
    have hinside {pending' : List Operator} {distance' : Nat}
        (htrack : track? pending token = some pending')
        (htrack' : track? (pending ++ [close]) token = some (pending' ++ [close]))
        (hclose' : closeAfter? (pending'.length + 1) rest = some distance')
        (hdistance : distance' + 1 = distance) :
        ∃ inside last after, token :: rest = inside ++ last :: after ∧ inside.length = distance ∧
          unclosed? pending inside = some [] ∧ last.isOperator close = true ∧
          unclosed? [] after = some remaining := by
      rw [unclosed?_cons, htrack', Option.bind_some] at hclosed
      obtain ⟨inside, last, after, rfl, hlength, hnested, hlast, hafter⟩ := ih _ hclose' hclosed
      refine ⟨token :: inside, last, after, rfl, ?_, ?_, hlast, hafter⟩
      · rw [List.length_cons, hlength, hdistance]
      · rw [unclosed?_cons, htrack, Option.bind_some, hnested]
    rw [closeAfter?.eq_def] at hclose
    rcases token.bracketing with ⟨hopens, htrack⟩ | ⟨hopens, hcloses, hnil, hcons⟩ |
      ⟨hopens, hcloses, htrack⟩
    · simp only [hopens, if_true] at hclose
      obtain ⟨distance', hclose', hdistance⟩ := Option.map_eq_some_iff.1 hclose
      exact hinside (htrack pending) (htrack _) hclose' hdistance
    · simp only [hopens, hcloses, Bool.false_eq_true, if_false, if_true] at hclose
      cases pending with
      | nil =>
        cases hclose
        rw [List.nil_append, unclosed?_cons, hcons] at hclosed
        split at hclosed
        · next hkind => exact ⟨[], token, rest, rfl, rfl, rfl, hkind, hclosed⟩
        · cases hclosed
      | cons first outer =>
        rw [List.cons_append, unclosed?_cons, hcons] at hclosed
        split at hclosed
        · next hkind =>
          obtain ⟨distance', hclose', hdistance⟩ := Option.map_eq_some_iff.1 hclose
          refine hinside ?_ ?_ hclose' hdistance
          · rw [hcons, if_pos hkind]
          · rw [List.cons_append, hcons, if_pos hkind]
        · cases hclosed
    · simp only [hopens, hcloses, Bool.false_eq_true, if_false] at hclose
      obtain ⟨distance', hclose', hdistance⟩ := Option.map_eq_some_iff.1 hclose
      exact hinside (htrack pending) (htrack _) hclose' hdistance

/-- What stands between a bracket and its counterpart at the end is nested. -/
theorem nested_inside {opening last : Token} {inside : List Token} {openSign close : Operator}
    (hopening : opening.isOperator openSign = true) (hpair : openSign.closing? = some close)
    (hclose : closeAfter? 1 (inside ++ [last]) = some inside.length)
    (hnested : Nested (opening :: inside ++ [last])) :
    Nested inside ∧ last.isOperator close = true := by
  have htrack : track? [] opening = some [close] := by
    simp [track?, isOperator_iff.1 hopening, hpair]
  rw [Nested, List.cons_append, unclosed?_cons, htrack, Option.bind_some] at hnested
  obtain ⟨inside', last', after, htokens, hlength, hinside, hlast, _⟩ :=
    exists_inside_of_closeAfter? [] hclose hnested
  obtain ⟨rfl, hrest⟩ := List.append_inj htokens hlength.symm
  cases hrest
  exact ⟨hinside, hlast⟩

/-! ### Arguments -/

theorem splitOuter_ne_nil (depth : Nat) (tokens : List Token) : splitOuter depth tokens ≠ [] := by
  cases tokens with
  | nil => simp [splitOuter]
  | cons token rest =>
    unfold splitOuter
    split
    · simp
    · dsimp only
      split <;> simp

/-- A token that is no separator outside brackets goes to the piece that follows. -/
theorem splitOuter_cons {token : Token} {rest : List Token} {depth : Nat}
    (h : (!token.opens && !token.closes && depth == 0 && token.isOperator .argumentSeparator) =
      false) :
    splitOuter depth (token :: rest) =
      (splitOuter (if token.opens then depth + 1 else if token.closes then depth - 1 else depth)
        rest).modifyHead (token :: ·) := by
  rw [splitOuter, h, if_neg Bool.false_ne_true]
  dsimp only
  split
  · next hnil => exact absurd hnil (splitOuter_ne_nil _ _)
  · next hpieces =>
    rw [hpieces]
    rfl

theorem intercalate_cons_head {α : Type} (separator first : List α) (others : List (List α))
    (item : α) :
    separator.intercalate ((item :: first) :: others) =
      item :: separator.intercalate (first :: others) := by
  cases others with
  | nil => simp
  | cons second others => simp [List.intercalate_cons_cons]

theorem intercalate_splitOuter (depth : Nat) (tokens : List Token) :
    [TokenKind.operator .argumentSeparator].intercalate
      ((splitOuter depth tokens).map (List.map kind)) = tokens.map kind := by
  induction tokens generalizing depth with
  | nil => rfl
  | cons token rest ih =>
    unfold splitOuter
    split
    · next hseparator =>
      simp only [Bool.and_eq_true] at hseparator
      rw [List.map_cons, List.intercalate_cons_of_ne_nil (by simp [splitOuter_ne_nil]), ih,
        List.map_cons, kind_of_isOperator hseparator.2]
      rfl
    · dsimp only
      split
      · next hnil => exact absurd hnil (splitOuter_ne_nil _ _)
      · next piece pieces hpieces =>
        rw [List.map_cons, List.map_cons, intercalate_cons_head, ← List.map_cons, ← hpieces, ih,
          List.map_cons]

/-- Pieces outside brackets are nested, and the first one closes the brackets that are open. -/
theorem nested_splitOuter (hclosed : unclosed? pending tokens = some []) :
    ∃ piece pieces, splitOuter pending.length tokens = piece :: pieces ∧
      unclosed? pending piece = some [] ∧ ∀ other ∈ pieces, Nested other := by
  induction tokens generalizing pending with
  | nil =>
    cases hclosed
    exact ⟨[], [], rfl, rfl, by simp⟩
  | cons token rest ih =>
    unfold splitOuter
    split
    · next hseparator =>
      simp only [Bool.and_eq_true, Bool.not_eq_true', beq_iff_eq, List.length_eq_zero_iff]
        at hseparator
      obtain ⟨⟨⟨hopens, hcloses⟩, rfl⟩, _⟩ := hseparator
      obtain ⟨piece, pieces, hpieces, hpiece, hothers⟩ :=
        ih ((nested_cons hopens hcloses).1 hclosed)
      refine ⟨[], piece :: pieces, congrArg _ hpieces, rfl, ?_⟩
      exact List.forall_mem_cons.2 ⟨hpiece, hothers⟩
    · obtain ⟨inner, htrack, hrest⟩ := exists_track?_of_unclosed? hclosed
      obtain ⟨piece, pieces, hpieces, hpiece, hothers⟩ := ih hrest
      dsimp only
      rw [← length_of_track? htrack, hpieces]
      refine ⟨token :: piece, pieces, rfl, ?_, hothers⟩
      rw [unclosed?_cons, htrack, Option.bind_some, hpiece]

/-- Arguments joined with separators are the tokens between the parentheses. -/
theorem intercalate_arguments (tokens : List Token) :
    [TokenKind.operator .argumentSeparator].intercalate
      ((arguments tokens).map (List.map kind)) = tokens.map kind := by
  unfold arguments
  split
  · next hempty => simp [List.isEmpty_iff.1 hempty]
  · exact intercalate_splitOuter 0 tokens

theorem subset_of_mem_splitOuter {depth : Nat} {piece : List Token}
    (hpiece : piece ∈ splitOuter depth tokens) : piece ⊆ tokens := by
  induction tokens generalizing depth piece with
  | nil => simp_all [splitOuter]
  | cons token rest ih =>
    unfold splitOuter at hpiece
    split at hpiece
    · rcases List.mem_cons.1 hpiece with rfl | hpiece
      · simp
      · exact List.subset_cons_of_subset token (ih hpiece)
    · dsimp only at hpiece
      split at hpiece
      · simp_all
      · next head pieces hpieces =>
        rcases List.mem_cons.1 hpiece with rfl | hpiece
        · exact List.cons_subset_cons token (ih (hpieces ▸ List.mem_cons_self))
        · exact List.subset_cons_of_subset token (ih (hpieces ▸ List.mem_cons_of_mem _ hpiece))

theorem subset_of_mem_arguments {argument : List Token} (hargument : argument ∈ arguments tokens) :
    argument ⊆ tokens := by
  unfold arguments at hargument
  split at hargument
  · cases hargument
  · exact subset_of_mem_splitOuter hargument

theorem nested_of_mem_arguments {argument : List Token} (hnested : Nested tokens)
    (hargument : argument ∈ arguments tokens) : Nested argument := by
  unfold arguments at hargument
  split at hargument
  · cases hargument
  · obtain ⟨piece, pieces, hpieces, hpiece, hothers⟩ := nested_splitOuter hnested
    rw [List.length_nil] at hpieces
    rw [hpieces] at hargument
    rcases List.mem_cons.1 hargument with rfl | hargument
    · exact hpiece
    · exact hothers argument hargument

end Token

end DecisionLang
