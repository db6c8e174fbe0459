import DecisionLang.Proofs.Token.Mending

/-!
# Sealed runs

A run of tokens is sealed if it is nested and all of its binary operators and separators stand
inside brackets. Nothing is split inside a sealed run: an operator or a separator next to it is
found where it stands (`outerOperators?_between`, `arguments_of_sealed`), and a bracket around a
nested run closes where the run ends (`closeAfter?_of_unclosed?`).
-/

namespace DecisionLang

namespace TokenKind

/-- Neither a binary operator nor a separator of arguments. -/
def isQuiet : TokenKind → Bool
  | operator sign => !sign.isBinary && sign != .argumentSeparator
  | _ => true

/-- Brackets that are still to be closed after one more token of this kind. -/
def track? (pending : List Operator) (kind : TokenKind) : Option (List Operator) :=
  Token.track? pending ⟨kind, 1⟩

/-- All brackets that are open before are closed, and what stands outside is quiet. -/
def SealedFrom : List Operator → List TokenKind → Prop
  | pending, [] => pending = []
  | pending, kind :: rest =>
    (pending = [] → kind.isQuiet = true) ∧
      ∃ inner, kind.track? pending = some inner ∧ SealedFrom inner rest

def Sealed (kinds : List TokenKind) : Prop := SealedFrom [] kinds

variable {kind : TokenKind} {kinds others rest : List TokenKind}
  {pending inner remaining : List Operator}

@[simp] theorem track?_kind (pending : List Operator) (token : Token) :
    token.kind.track? pending = Token.track? pending token := Token.track?_congr rfl

theorem unclosed?_cons :
    unclosed? pending (kind :: rest) = (kind.track? pending).bind (unclosed? · rest) := by
  rw [unclosed?, List.map_cons, Token.unclosed?_cons]
  rfl

theorem track?_append (outer : List Operator) (h : kind.track? pending = some inner) :
    kind.track? (pending ++ outer) = some (inner ++ outer) := by
  have hone : unclosed? pending [kind] = some inner := by rw [unclosed?_cons, h]; rfl
  have houter := unclosed?_append_pending outer hone
  rw [unclosed?_cons] at houter
  cases htrack : kind.track? (pending ++ outer) with
  | none => simp [htrack] at houter
  | some found => simpa [htrack] using houter

@[simp] theorem sealed_nil : Sealed [] := rfl

theorem sealed_cons (hopens : kind.closing? = none) (hcloses : kind.closes = false)
    (hquiet : kind.isQuiet = true) : Sealed (kind :: rest) ↔ Sealed rest := by
  have htrack : kind.track? [] = some [] := by
    simp [track?, Token.track?, ← Token.closing?_kind, ← Token.closes_kind, hopens, hcloses]
  simp [Sealed, SealedFrom, htrack, hquiet]

theorem sealed_word (text : String) : Sealed [.word text] :=
  (sealed_cons rfl rfl rfl).2 sealed_nil

theorem SealedFrom.append (h : SealedFrom pending kinds) (hothers : Sealed others) :
    SealedFrom pending (kinds ++ others) := by
  induction kinds generalizing pending with
  | nil =>
    cases h
    exact hothers
  | cons kind rest ih =>
    obtain ⟨hquiet, inner, htrack, hrest⟩ := h
    exact ⟨hquiet, inner, htrack, ih hrest⟩

theorem Sealed.append (h : Sealed kinds) (hothers : Sealed others) : Sealed (kinds ++ others) :=
  SealedFrom.append h hothers

theorem SealedFrom.unclosed? (h : SealedFrom pending kinds) :
    unclosed? pending kinds = some [] := by
  induction kinds generalizing pending with
  | nil =>
    cases h
    rfl
  | cons kind rest ih =>
    obtain ⟨_, inner, htrack, hrest⟩ := h
    rw [unclosed?_cons, htrack]
    exact ih hrest

theorem Sealed.nested (h : Sealed kinds) : Nested kinds := h.unclosed?

theorem sealedFrom_inside {close : Operator} (h : TokenKind.unclosed? pending kinds = some remaining)
    (hrest : SealedFrom (remaining ++ [close]) rest) :
    SealedFrom (pending ++ [close]) (kinds ++ rest) := by
  induction kinds generalizing pending with
  | nil =>
    cases h
    exact hrest
  | cons kind kinds ih =>
    rw [unclosed?_cons, Option.bind_eq_some_iff] at h
    obtain ⟨inner, htrack, h⟩ := h
    exact ⟨by simp, _, track?_append [close] htrack, ih h⟩

/-- A nested run between a bracket and its counterpart is sealed. -/
theorem Nested.sealed {sign close : Operator} (hpair : sign.closing? = some close)
    (h : Nested kinds) : Sealed (.operator sign :: kinds ++ [.operator close]) := by
  have hopening : (operator sign).track? [] = some [close] := by
    cases sign <;> cases hpair <;> rfl
  have hclosing : (operator close).track? [close] = some [] := by
    cases sign <;> cases hpair <;> rfl
  refine ⟨fun _ => ?_, [close], hopening, ?_⟩
  · cases sign <;> cases hpair <;> rfl
  · have hrest : SealedFrom ([] ++ [close]) [.operator close] := ⟨by simp, [], hclosing, rfl⟩
    exact sealedFrom_inside h hrest

end TokenKind

namespace Token

variable {tokens others inside : List Token} {pending remaining : List Operator} {sign : Token}

theorem outerOperatorsFrom?_of_sealedFrom (index : Nat)
    (h : TokenKind.SealedFrom pending (tokens.map kind)) :
    outerOperatorsFrom? index pending.length tokens = some [] := by
  induction tokens generalizing index pending with
  | nil =>
    cases h
    rfl
  | cons token rest ih =>
    obtain ⟨hquiet, inner, htrack, hrest⟩ := h
    rw [TokenKind.track?_kind] at htrack
    rw [outerOperatorsFrom?.eq_def]
    cases tracks_of_track? htrack with
    | opening _ hopens =>
      simp only [hopens, if_true]
      exact ih _ hrest
    | closing hopens hcloses =>
      simp only [hopens, hcloses, Bool.false_eq_true, if_false, if_true]
      exact ih _ hrest
    | plain hopens hcloses =>
      simp only [hopens, hcloses, Bool.false_eq_true, if_false]
      have hnone : (token.operator?.filter fun operator =>
          pending.length == 0 && operator.isBinary) = none := by
        rw [Option.filter_eq_none_iff]
        intro operator hoperator
        cases pending with
        | nil =>
          have hkind := kind_of_isOperator (isOperator_iff.2 hoperator)
          have hquiet' := hquiet rfl
          rw [hkind] at hquiet'
          simp only [TokenKind.isQuiet, Bool.and_eq_true, Bool.not_eq_true'] at hquiet'
          simp [hquiet'.1]
        | cons => simp
      rw [hnone]
      exact ih _ hrest

theorem outerOperators?_of_sealed (h : TokenKind.Sealed (tokens.map kind)) :
    outerOperators? tokens = some [] := outerOperatorsFrom?_of_sealedFrom 0 h

/-- The only operator between two sealed runs is the one that stands there. -/
theorem outerOperators?_between {operator : Operator} (h : TokenKind.Sealed (tokens.map kind))
    (hothers : TokenKind.Sealed (others.map kind)) (hsign : sign.isOperator operator = true)
    (hbinary : operator.isBinary = true) :
    outerOperators? (tokens ++ sign :: others) = some [(tokens.length, operator)] := by
  have hoperator := isOperator_iff.1 hsign
  obtain ⟨hopens, hcloses⟩ :=
    plain_of_operator? hoperator (by rintro hrole; simp [Operator.isBinary, hrole] at hbinary)
  have hnested : unclosed? [] tokens = some [] := by
    rw [unclosed?_eq_kinds]
    exact h.nested
  have hsplit := outerOperatorsFrom?_append 0 (sign :: others) hnested
  have hothers' := outerOperatorsFrom?_of_sealedFrom (tokens.length + 1) hothers
  have hhere : outerOperatorsFrom? tokens.length 0 (sign :: others) =
      some [(tokens.length, operator)] := by
    rw [List.length_nil] at hothers'
    rw [outerOperatorsFrom?.eq_def]
    simp [hopens, hcloses, hoperator, hbinary, hothers', Option.filter_some]
  rw [outerOperatorsFrom?_of_sealedFrom 0 h, Nat.zero_add, hhere] at hsplit
  exact hsplit

theorem opens_eq_false_of_closes (h : sign.closes = true) : sign.opens = false := by
  unfold opens closes at *
  cases hoperator : sign.operator? with
  | none => rfl
  | some operator =>
    rw [hoperator] at h
    cases operator <;> first | rfl | cases h

/-- A bracket closes where the nested run behind it ends. -/
theorem closeAfter?_of_unclosed? (h : unclosed? pending inside = some [])
    (hlast : sign.closes = true) :
    closeAfter? (pending.length + 1) (inside ++ [sign]) = some inside.length := by
  induction inside generalizing pending with
  | nil =>
    cases h
    rw [List.nil_append, closeAfter?.eq_def]
    simp [opens_eq_false_of_closes hlast, hlast]
  | cons token rest ih =>
    obtain ⟨inner, htrack, hrest⟩ := exists_track?_of_unclosed? h
    have hnext := ih hrest
    rw [List.cons_append, closeAfter?.eq_def]
    cases tracks_of_track? htrack with
    | opening _ hopens => simp_all
    | closing hopens hcloses => simp_all
    | plain hopens hcloses => simp_all

theorem splitOuter_append (h : TokenKind.SealedFrom pending (tokens.map kind))
    {pieces : List (List Token)} (hothers : splitOuter 0 others = [] :: pieces) :
    splitOuter pending.length (tokens ++ others) = tokens :: pieces := by
  induction tokens generalizing pending with
  | nil =>
    cases h
    exact hothers
  | cons token rest ih =>
    obtain ⟨hquiet, inner, htrack, hrest⟩ := h
    rw [TokenKind.track?_kind] at htrack
    have hseparator : (!token.opens && !token.closes && pending.length == 0 &&
        token.isOperator .argumentSeparator) = false := by
      cases pending with
      | nil =>
        have hquiet' := hquiet rfl
        cases hoperator : token.isOperator .argumentSeparator with
        | false => simp
        | true =>
          rw [kind_of_isOperator hoperator] at hquiet'
          cases hquiet'
      | cons => simp
    rw [List.cons_append, splitOuter, hseparator, if_neg Bool.false_ne_true]
    dsimp only
    rw [← length_of_track? htrack, ih hrest]

theorem splitOuter_of_sealed (h : TokenKind.Sealed (tokens.map kind)) :
    splitOuter 0 tokens = [tokens] := by
  have hnil : splitOuter 0 [] = [[]] := rfl
  have hsplit := splitOuter_append h hnil
  rwa [List.append_nil] at hsplit

theorem splitOuter_append_separator (h : TokenKind.Sealed (tokens.map kind))
    (hsign : sign.isOperator .argumentSeparator = true) (others : List Token) :
    splitOuter 0 (tokens ++ sign :: others) = tokens :: splitOuter 0 others := by
  obtain ⟨hopens, hcloses⟩ := plain_of_operator? (isOperator_iff.1 hsign) (by decide)
  exact splitOuter_append h (by simp [splitOuter, hopens, hcloses, hsign])

/-- Sealed arguments that are joined by separators are told apart again. -/
theorem arguments_of_sealed {arguments : List (List TokenKind)}
    (hsealed : ∀ argument ∈ arguments, TokenKind.Sealed argument)
    (hne : ∀ argument ∈ arguments, argument ≠ [])
    (h : tokens.map kind = [TokenKind.operator .argumentSeparator].intercalate arguments) :
    (Token.arguments tokens).map (List.map kind) = arguments := by
  cases arguments with
  | nil =>
    obtain rfl := List.map_eq_nil_iff.1 h
    rfl
  | cons first others =>
    have hnonempty : tokens.isEmpty = false := by
      rw [List.isEmpty_eq_false_iff]
      rintro rfl
      have hfirst := hne first List.mem_cons_self
      cases others with
      | nil => simp_all
      | cons second others => simp_all [List.intercalate_cons_cons]
    rw [Token.arguments, hnonempty, if_neg Bool.false_ne_true]
    clear hnonempty hne
    induction others generalizing first tokens with
    | nil =>
      rw [List.intercalate_singleton] at h
      rw [splitOuter_of_sealed (by rw [h]; exact hsealed first List.mem_cons_self),
        List.map_singleton, h]
    | cons second others ih =>
      rw [List.forall_mem_cons] at hsealed
      rw [List.intercalate_cons_cons, List.append_assoc] at h
      obtain ⟨before, after, rfl, hbefore, hafter⟩ := List.map_eq_append_iff.1 h
      obtain ⟨sign, others', rfl, hsign, hothers⟩ := List.map_eq_cons_iff.1 hafter
      rw [splitOuter_append_separator (by rw [hbefore]; exact hsealed.1)
        (isOperator_iff_kind.2 hsign), List.map_cons, hbefore, ih second hsealed.2 hothers]

end Token

end DecisionLang
