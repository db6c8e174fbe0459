import DecisionLang.Proofs.Token.Nesting
import Mathlib.Data.List.Forall2

/-!
# Closing brackets of the other kind

Counting takes every closing bracket for the counterpart of the innermost open one, whatever its
kind. `TokenKind.mended` writes the counterpart in its place. Kinds of tokens are alike if they
differ in closing brackets only: of the runs that are alike no more than one is nested, the mended
one (`TokenKind.eq_mended_of_alike`).

Nested runs are put together from nested runs: next to each other, inside a pair of brackets of one
kind, and joined by separators.
-/

namespace DecisionLang

namespace TokenKind

/-- The bracket that closes an opening one. -/
def closing? : TokenKind → Option Operator
  | operator sign => sign.closing?
  | _ => none

def closes : TokenKind → Bool
  | operator sign => sign.closes
  | _ => false

/-- Every closing bracket replaced by the one that closes the innermost open bracket. Brackets that
are open before are given as those that close them. -/
def mendedFrom (pending : List Operator) : List TokenKind → List TokenKind
  | [] => []
  | kind :: rest =>
    match kind.closing? with
    | some close => kind :: mendedFrom (close :: pending) rest
    | none =>
      if kind.closes then
        match pending with
        | close :: outer => operator close :: mendedFrom outer rest
        | [] => kind :: mendedFrom [] rest
      else kind :: mendedFrom pending rest

def mended (kinds : List TokenKind) : List TokenKind := mendedFrom [] kinds

def Alike (kind other : TokenKind) : Prop :=
  kind = other ∨ kind.closes = true ∧ other.closes = true

def unclosed? (pending : List Operator) (kinds : List TokenKind) : Option (List Operator) :=
  Token.unclosed? pending (kinds.map (⟨·, 1⟩))

/-- Tokens of these kinds are nested. -/
def Nested (kinds : List TokenKind) : Prop := Token.Nested (kinds.map (⟨·, 1⟩))

instance (kinds : List TokenKind) : Decidable (Nested kinds) :=
  inferInstanceAs (Decidable (Token.Nested _))

end TokenKind

namespace Token

variable {token : Token} {tokens : List Token} {pending : List Operator}

@[simp] theorem closing?_kind (token : Token) :
    token.kind.closing? = token.operator?.bind Operator.closing? := by
  unfold TokenKind.closing? operator?
  split <;> simp_all

@[simp] theorem closes_kind (token : Token) : token.kind.closes = token.closes := by
  unfold TokenKind.closes closes operator?
  split <;> simp_all

theorem isOperator_iff_kind {operator : Operator} :
    token.isOperator operator = true ↔ token.kind = .operator operator := by
  constructor
  · exact kind_of_isOperator
  · intro h
    simp [isOperator, operator?, h]

theorem track?_congr {other : Token} (h : token.kind = other.kind) :
    track? pending token = track? pending other := by
  unfold track?
  rw [← closing?_kind, ← closes_kind, h, closing?_kind, closes_kind]
  simp only [isOperator_iff_kind, h]

theorem unclosed?_congr {others : List Token} (h : tokens.map kind = others.map kind) :
    unclosed? pending tokens = unclosed? pending others := by
  induction tokens generalizing others pending with
  | nil =>
    obtain rfl := List.map_eq_nil_iff.1 h.symm
    rfl
  | cons token rest ih =>
    obtain ⟨other, others, rfl, hkind, hrest⟩ := List.map_eq_cons_iff.1 h.symm
    rw [unclosed?_cons, unclosed?_cons, track?_congr hkind.symm]
    exact congrArg _ (funext fun _ => ih hrest.symm)

theorem unclosed?_eq_kinds (pending : List Operator) (tokens : List Token) :
    unclosed? pending tokens = TokenKind.unclosed? pending (tokens.map kind) :=
  unclosed?_congr (by simp [Function.comp_def])

theorem nested_iff_kinds : Nested tokens ↔ TokenKind.Nested (tokens.map kind) := by
  rw [Nested, unclosed?_eq_kinds, TokenKind.Nested]
  rfl

theorem exists_enclosed {kinds : List TokenKind} {close : TokenKind}
    (hnested : TokenKind.Nested kinds) (hclose : close.closes = true)
    (h : tokens.map kind = kinds ++ [close]) :
    ∃ inner last, tokens = inner ++ [last] ∧ inner.map kind = kinds ∧ Nested inner ∧
      last.closes = true := by
  obtain ⟨inner, after, rfl, hinner, hafter⟩ := List.map_eq_append_iff.1 h
  obtain ⟨last, rfl, hlast⟩ := List.map_eq_singleton_iff.1 hafter
  refine ⟨inner, last, rfl, hinner, nested_iff_kinds.2 ?_, ?_⟩
  · rwa [hinner]
  · rwa [← closes_kind, hlast]

end Token

namespace TokenKind

variable {kind : TokenKind} {kinds others rest : List TokenKind} {pending remaining : List Operator}

theorem nested_iff : Nested kinds ↔ unclosed? [] kinds = some [] := Iff.rfl

@[simp] theorem unclosed?_nil : unclosed? pending [] = some pending := rfl

theorem unclosed?_of_closing? {close : Operator} (h : kind.closing? = some close) :
    unclosed? pending (kind :: rest) = unclosed? (close :: pending) rest := by
  have htrack : Token.track? pending ⟨kind, 1⟩ = some (close :: pending) := by
    simp [Token.track?, ← Token.closing?_kind, h]
  simp [unclosed?, htrack]

theorem unclosed?_of_plain (hopens : kind.closing? = none) (hcloses : kind.closes = false) :
    unclosed? pending (kind :: rest) = unclosed? pending rest := by
  have htrack : Token.track? pending ⟨kind, 1⟩ = some pending := by
    simp [Token.track?, ← Token.closing?_kind, ← Token.closes_kind, hopens, hcloses]
  simp [unclosed?, htrack]

theorem closing?_eq_none_of_closes (h : kind.closes = true) : kind.closing? = none := by
  cases kind with
  | operator sign => cases sign <;> simp_all [closes, closing?, Operator.closes, Operator.closing?]
  | _ => rfl

/-- A closing bracket closes the innermost open one. -/
theorem unclosed?_of_closes (h : kind.closes = true) :
    unclosed? pending (kind :: rest) = some remaining ↔
      ∃ outer close, pending = close :: outer ∧ kind = .operator close ∧
        unclosed? outer rest = some remaining := by
  have hopens := closing?_eq_none_of_closes h
  cases pending with
  | nil =>
    have htrack : Token.track? [] ⟨kind, 1⟩ = none := by
      simp [Token.track?, ← Token.closing?_kind, ← Token.closes_kind, hopens, h]
    simp [unclosed?, htrack]
  | cons close outer =>
    have htrack : Token.track? (close :: outer) ⟨kind, 1⟩ =
        if kind = .operator close then some outer else none := by
      simp [Token.track?, ← Token.closing?_kind, ← Token.closes_kind, hopens, h,
        Token.isOperator_iff_kind]
    rw [unclosed?, List.map_cons, Token.unclosed?_cons, htrack]
    split
    · next hkind =>
      simp only [Option.bind_some, List.cons.injEq]
      constructor
      · intro hrest
        exact ⟨outer, close, ⟨rfl, rfl⟩, hkind, hrest⟩
      · rintro ⟨_, _, ⟨rfl, rfl⟩, _, hrest⟩
        exact hrest
    · next hkind =>
      constructor
      · intro hnone
        cases hnone
      · rintro ⟨_, _, hpending, hkind', _⟩
        cases hpending
        exact absurd hkind' hkind

/-! ### Mending -/

theorem mendedFrom_of_closing? {close : Operator} (h : kind.closing? = some close) :
    mendedFrom pending (kind :: rest) = kind :: mendedFrom (close :: pending) rest := by
  rw [mendedFrom.eq_def]
  simp [h]

theorem mendedFrom_of_plain (hopens : kind.closing? = none) (hcloses : kind.closes = false) :
    mendedFrom pending (kind :: rest) = kind :: mendedFrom pending rest := by
  rw [mendedFrom.eq_def]
  simp [hopens, hcloses]

theorem mendedFrom_of_closes {close : Operator} {outer : List Operator}
    (h : kind.closes = true) :
    mendedFrom (close :: outer) (kind :: rest) = operator close :: mendedFrom outer rest := by
  rw [mendedFrom.eq_def]
  simp [closing?_eq_none_of_closes h, h]

theorem Alike.closes_eq {other : TokenKind} (h : other.Alike kind) :
    other.closes = kind.closes := by
  rcases h with rfl | ⟨hother, hkind⟩
  · rfl
  · rw [hother, hkind]

theorem Alike.eq_of_closes {other : TokenKind} (h : other.Alike kind)
    (hcloses : kind.closes = false) : other = kind := by
  rcases h with heq | ⟨_, hkind⟩
  · exact heq
  · rw [hcloses] at hkind
    cases hkind

/-- Of the runs that are alike a nested one is the mended one. -/
theorem eq_mendedFrom_of_alike (halike : List.Forall₂ Alike others kinds)
    (hclosed : unclosed? pending kinds = some []) : kinds = mendedFrom pending others := by
  induction halike generalizing pending with
  | nil => rfl
  | @cons other kind others kinds hhead _ ih =>
    cases hcloses : kind.closes with
    | true =>
      obtain ⟨outer, close, rfl, rfl, hrest⟩ := (unclosed?_of_closes hcloses).1 hclosed
      rw [mendedFrom_of_closes (hhead.closes_eq.trans hcloses), ← ih hrest]
    | false =>
      obtain rfl := hhead.eq_of_closes hcloses
      cases hopens : other.closing? with
      | some close =>
        rw [unclosed?_of_closing? hopens] at hclosed
        rw [mendedFrom_of_closing? hopens, ← ih hclosed]
      | none =>
        rw [unclosed?_of_plain hopens hcloses] at hclosed
        rw [mendedFrom_of_plain hopens hcloses, ← ih hclosed]

theorem eq_mended_of_alike (halike : List.Forall₂ Alike others kinds) (hnested : Nested kinds) :
    kinds = mended others := eq_mendedFrom_of_alike halike hnested

theorem forall_of_alike {holds : TokenKind → Prop} (halike : List.Forall₂ Alike others kinds)
    (hoperator : ∀ sign, holds (.operator sign)) (hothers : ∀ other ∈ others, holds other) :
    ∀ kind ∈ kinds, holds kind := by
  induction halike with
  | nil => exact nofun
  | @cons other kind _ _ hhead _ ih =>
    rw [List.forall_mem_cons] at hothers ⊢
    refine ⟨?_, ih hothers.2⟩
    rcases hhead with rfl | ⟨_, hcloses⟩
    · exact hothers.1
    · cases kind with
      | operator sign => exact hoperator sign
      | _ => cases hcloses

theorem alike_refl (kinds : List TokenKind) : List.Forall₂ Alike kinds kinds :=
  List.forall₂_same.2 fun _ _ => .inl rfl

theorem mended_of_nested (h : Nested kinds) : mended kinds = kinds :=
  (eq_mended_of_alike (alike_refl kinds) h).symm

theorem alike_intercalate (separator : List TokenKind) {pieces pieces' : List (List TokenKind)}
    (h : List.Forall₂ (List.Forall₂ Alike) pieces pieces') :
    List.Forall₂ Alike (separator.intercalate pieces) (separator.intercalate pieces') := by
  induction h with
  | nil => exact .nil
  | cons hpiece hrest ih =>
    cases hrest with
    | nil => simpa using hpiece
    | cons hsecond hothers =>
      rw [List.intercalate_cons_cons, List.intercalate_cons_cons, List.append_assoc,
        List.append_assoc]
      exact List.rel_append hpiece (List.rel_append (alike_refl separator) ih)

/-! ### Nested runs -/

theorem unclosed?_append :
    unclosed? pending (kinds ++ others) = (unclosed? pending kinds).bind (unclosed? · others) := by
  rw [unclosed?, List.map_append, Token.unclosed?, List.foldlM_append]
  rfl

/-- Brackets that are open further out stay open. -/
theorem unclosed?_append_pending (outer : List Operator)
    (h : unclosed? pending kinds = some remaining) :
    unclosed? (pending ++ outer) kinds = some (remaining ++ outer) := by
  induction kinds generalizing pending with
  | nil =>
    cases h
    rfl
  | cons kind rest ih =>
    cases hcloses : kind.closes with
    | true =>
      obtain ⟨inner, close, rfl, hkind, hrest⟩ := (unclosed?_of_closes hcloses).1 h
      exact (unclosed?_of_closes hcloses).2 ⟨inner ++ outer, close, rfl, hkind, ih hrest⟩
    | false =>
      cases hopens : kind.closing? with
      | some close =>
        rw [unclosed?_of_closing? hopens] at h ⊢
        exact ih h
      | none =>
        rw [unclosed?_of_plain hopens hcloses] at h ⊢
        exact ih h

theorem unclosed?_of_nested (h : Nested kinds) : unclosed? pending kinds = some pending :=
  unclosed?_append_pending pending h

@[simp] theorem nested_nil : Nested [] := rfl

theorem nested_cons (hopens : kind.closing? = none) (hcloses : kind.closes = false) :
    Nested (kind :: rest) ↔ Nested rest := by
  rw [nested_iff, unclosed?_of_plain hopens hcloses]
  rfl

theorem nested_word (text : String) : Nested [.word text] := (nested_cons rfl rfl).2 nested_nil

theorem Nested.binary {sign : Operator} (h : Nested kinds) (hbinary : sign.isBinary = true) :
    Nested (.operator sign :: kinds) := by
  refine (nested_cons ?_ ?_).2 h
  · cases sign <;> first | rfl | cases hbinary
  · cases sign <;> first | rfl | cases hbinary

theorem Nested.append (h : Nested kinds) (hothers : Nested others) : Nested (kinds ++ others) := by
  rw [nested_iff, unclosed?_append, unclosed?_of_nested h]
  exact hothers

theorem Nested.enclosed {sign close : Operator} (hpair : sign.closing? = some close)
    (h : Nested kinds) : Nested (.operator sign :: kinds ++ [.operator close]) := by
  have hclose : (operator close).closes = true := by
    cases sign <;> cases hpair <;> rfl
  have hlast : unclosed? [close] [.operator close] = some [] :=
    (unclosed?_of_closes hclose).2 ⟨[], close, rfl, rfl, rfl⟩
  have hopening : (operator sign).closing? = some close := hpair
  rw [nested_iff, List.cons_append, unclosed?_of_closing? hopening, unclosed?_append,
    unclosed?_of_nested h]
  exact hlast

theorem Nested.intercalate {separator : List TokenKind} {pieces : List (List TokenKind)}
    (hseparator : Nested separator) (h : ∀ piece ∈ pieces, Nested piece) :
    Nested (separator.intercalate pieces) := by
  induction pieces with
  | nil => exact nested_nil
  | cons piece pieces ih =>
    rw [List.forall_mem_cons] at h
    cases pieces with
    | nil => simpa using h.1
    | cons second others =>
      rw [List.intercalate_cons_cons, List.append_assoc]
      exact h.1.append (hseparator.append (ih h.2))

end TokenKind

end DecisionLang
