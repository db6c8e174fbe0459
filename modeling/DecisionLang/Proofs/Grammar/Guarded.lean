import DecisionLang.Grammar
import DecisionLang.Proofs.Token.Nesting
import Mathlib.Data.List.Basic

/-!
# Guarded reading

A reading that says by number which token it means can be wrong about it. `Guarded` is reading in
which everything that is relied on is tested, so that a reading can also end in a breach: a number
outside the tokens, a value that should be there and is not, or a part that is not shorter than what
it is part of. A reading that relies on nothing is a guarded one that ends in no breach
(`Guarded.ofNumbered_ne_breach`), and so is the cutting of arguments
(`Token.argumentsByPosition_eq`).
-/

namespace DecisionLang

/-- What reading by positions relies on and does not hold. -/
inductive Breach where
  /-- There is no token at the position. -/
  | position
  /-- The slice begins behind its end, or ends behind the last token. -/
  | slice
  /-- More is taken off a length than there is. -/
  | length
  /-- A value that a rule made sure of is missing. -/
  | value
  /-- A part that is to be read is as long as the whole. -/
  | part
  deriving DecidableEq

/-- Why a reading by positions ends without an expression. -/
inductive Stop where
  | breach (breach : Breach)
  | refusal (diagnostic : Diagnostic)

/-- Reading with a supply of expression numbers, where everything that is relied on is tested. -/
abbrev Guarded := ExceptT Stop (StateM Nat)

namespace Guarded

variable {α β : Type}

def ofNumbered (reading : Numbered α) : Guarded α := fun number =>
  match reading number with
  | (.ok value, after) => (.ok value, after)
  | (.error diagnostic, after) => (.error (.refusal diagnostic), after)

def breach (breach : Breach) : Guarded α := throw (.breach breach)

def mark (line : Line) (token : Token) : Guarded Mark := ofNumbered (Numbered.mark line token)

def fail (line : Line) (token : Token) (fault : Fault) : Guarded α :=
  ofNumbered (Numbered.fail line token fault)

def item (items : List α) (position : Nat) : Guarded α :=
  items[position]?.elim (breach .position) pure

/-- The items from one position up to another, which is left out. -/
def slice (items : List α) (start stop : Nat) : Guarded (List α) :=
  if start ≤ stop ∧ stop ≤ items.length then pure ((items.take stop).drop start) else breach .slice

def sliceFrom (items : List α) (start : Nat) : Guarded (List α) := slice items start items.length

def last (items : List α) : Guarded Nat :=
  if 1 ≤ items.length then pure (items.length - 1) else breach .length

/-- A value that is there. -/
def given (value : Option α) : Guarded α := value.elim (breach .value) pure

def next (read : α → Guarded β) : List α → Guarded (β × List α)
  | [] => breach .value
  | item :: rest => return (← read item, rest)

/-- Reads the next of some items if one is asked for. -/
def nextIf (asked : Bool) (read : α → Guarded β) (items : List α) : Guarded (Option β × List α) :=
  if asked then return (← next read items).map some id else return (none, items)

/-! ### Readings that rely on nothing -/

@[simp] theorem ofNumbered_pure (value : α) : ofNumbered (pure value) = pure value := rfl

@[simp] theorem ofNumbered_bind (reading : Numbered α) (next : α → Numbered β) :
    ofNumbered (reading >>= next) =
      ofNumbered reading >>= fun value => ofNumbered (next value) := by
  funext number
  simp only [ofNumbered, bind, ExceptT.bind, ExceptT.mk, ExceptT.bindCont, StateT.bind]
  rcases reading number with ⟨_ | _, number'⟩ <;> rfl

@[simp] theorem ofNumbered_map (f : α → β) (reading : Numbered α) :
    ofNumbered (f <$> reading) = f <$> ofNumbered reading := by
  rw [map_eq_pure_bind, map_eq_pure_bind]
  exact ofNumbered_bind reading _

@[simp] theorem ofNumbered_mark (line : Line) (token : Token) :
    ofNumbered (Numbered.mark line token) = mark line token := rfl

@[simp] theorem ofNumbered_fail (line : Line) (token : Token) (fault : Fault) :
    (ofNumbered (Numbered.fail line token fault) : Guarded α) = fail line token fault := rfl

@[simp] theorem fail_bind (line : Line) (token : Token) (fault : Fault) (next : α → Guarded β) :
    (fail line token fault >>= next) = fail line token fault := rfl

@[simp] theorem ofNumbered_ite {c : Prop} [Decidable c] (first second : Numbered α) :
    ofNumbered (if c then first else second) = if c then ofNumbered first else ofNumbered second :=
  apply_ite _ _ _ _

theorem mapM_eq_ofNumbered {items : List β} {guarded : β → Guarded α} {read : β → Numbered α}
    (h : ∀ item ∈ items, guarded item = ofNumbered (read item)) :
    items.mapM guarded = ofNumbered (items.mapM read) := by
  induction items with
  | nil => rfl
  | cons item items ih =>
    obtain ⟨hitem, hitems⟩ := List.forall_mem_cons.1 h
    simp only [List.mapM_cons, ofNumbered_bind, hitem, ih hitems, ofNumbered_pure]

/-- A reading that relies on nothing ends in no breach. -/
theorem ofNumbered_ne_breach (reading : Numbered α) (next : Nat) (b : Breach) :
    (ofNumbered reading next).1 ≠ .error (.breach b) := by
  unfold ofNumbered
  rcases reading next with ⟨_ | _, next'⟩ <;> simp

/-! ### Positions -/

@[simp] theorem given_some (value : α) : given (some value) = pure value := rfl

@[simp] theorem item_zero (first : α) (rest : List α) : item (first :: rest) 0 = pure first := rfl

@[simp] theorem item_one (first second : α) (rest : List α) :
    item (first :: second :: rest) 1 = pure second := rfl

@[simp] theorem item_two (first second third : α) (rest : List α) :
    item (first :: second :: third :: rest) 2 = pure third := rfl

theorem item_head {items : List α} {first : α} (h : items.head? = some first) :
    item items 0 = pure first := by
  obtain ⟨rest, rfl⟩ := List.head?_eq_some_iff.1 h
  rfl

theorem item_length (before after : List α) (between : α) :
    item (before ++ between :: after) before.length = pure between := by
  simp [item]

theorem exists_of_drop_eq_cons {items after : List α} {between : α} {position : Nat}
    (h : items.drop position = between :: after) :
    ∃ before, items = before ++ between :: after ∧ position = before.length := by
  refine ⟨items.take position, ?_, ?_⟩
  · rw [← h, List.take_append_drop]
  · have hlength := congrArg List.length h
    simp only [List.length_drop, List.length_cons] at hlength
    rw [List.length_take]
    omega

theorem slice_length (before between after : List α) :
    slice (before ++ between ++ after) before.length (before.length + between.length) =
      pure between := by
  rw [slice, if_pos (by simp), ← List.length_append, List.take_left, List.drop_left]

theorem sliceFrom_length (before after : List α) :
    sliceFrom (before ++ after) before.length = pure after := by
  have h := slice_length before after []
  rwa [List.append_nil, ← List.length_append] at h

@[simp] theorem sliceFrom_one (first : α) (rest : List α) :
    sliceFrom (first :: rest) 1 = pure rest := sliceFrom_length [first] rest

@[simp] theorem sliceFrom_two (first second : α) (rest : List α) :
    sliceFrom (first :: second :: rest) 2 = pure rest := sliceFrom_length [first, second] rest

@[simp] theorem slice_one (first final : α) (inner : List α) :
    slice (first :: (inner ++ [final])) 1 (inner.length + 1) = pure inner := by
  have h := slice_length [first] inner [final]
  rwa [List.length_singleton, Nat.add_comm] at h

@[simp] theorem slice_two (first second final : α) (inner : List α) :
    slice (first :: second :: (inner ++ [final])) 2 (inner.length + 1 + 1) = pure inner := by
  have h := slice_length [first, second] inner [final]
  rwa [Nat.add_comm] at h

@[simp] theorem last_cons (first : α) (rest : List α) : last (first :: rest) = pure rest.length := by
  simp [last]

@[simp] theorem false_andM (other : Guarded Bool) : (pure false <&&> other) = pure false := rfl

@[simp] theorem pure_andM_pure (first second : Bool) :
    (pure first <&&> pure second : Guarded Bool) = pure (first && second) := by
  cases first <;> rfl

@[simp] theorem pure_orM_pure (first second : Bool) :
    (pure first <||> pure second : Guarded Bool) = pure (first || second) := by
  cases first <;> rfl

end Guarded

/-! ### Arguments -/

namespace Token

open Guarded

/-- The pieces of some tokens that are still to come, where the piece at hand began at `start` and
what is left begins at `position`. -/
def argumentsFrom (tokens : List Token) (start position depth : Nat) :
    List Token → Guarded (List (List Token))
  | [] => return [← sliceFrom tokens start]
  | token :: rest =>
    if token.opens then argumentsFrom tokens start (position + 1) (depth + 1) rest
    else if token.closes then argumentsFrom tokens start (position + 1) (depth - 1) rest
    else if depth == 0 && token.isOperator .argumentSeparator then do
      let argument ← slice tokens start position
      return argument :: (← argumentsFrom tokens (position + 1) (position + 1) depth rest)
    else argumentsFrom tokens start (position + 1) depth rest

def argumentsByPosition (tokens : List Token) : Guarded (List (List Token)) :=
  if tokens.isEmpty then return [] else argumentsFrom tokens 0 0 0 tokens

theorem modifyHead_nil_append (pieces : List (List Token)) :
    pieces.modifyHead ([] ++ ·) = pieces := by
  cases pieces <;> rfl

/-- The piece at hand is completed by what is left, and all other pieces come from there. -/
theorem argumentsFrom_eq (before piece rest : List Token) (depth : Nat) :
    argumentsFrom (before ++ piece ++ rest) before.length (before.length + piece.length) depth
      rest = pure ((splitOuter depth rest).modifyHead (piece ++ ·)) := by
  induction rest generalizing before piece depth with
  | nil =>
    rw [argumentsFrom, List.append_nil, sliceFrom_length]
    simp [splitOuter]
  | cons token rest ih =>
    have hstays (depth : Nat) : argumentsFrom (before ++ piece ++ token :: rest) before.length
        (before.length + piece.length + 1) depth rest =
        pure (((splitOuter depth rest).modifyHead (token :: ·)).modifyHead (piece ++ ·)) := by
      have hpiece := ih before (piece ++ [token]) depth
      simp only [List.append_assoc, List.singleton_append, List.length_append,
        List.length_singleton, ← Nat.add_assoc] at hpiece
      rw [List.append_assoc, hpiece, List.modifyHead_modifyHead]
      rfl
    rw [argumentsFrom]
    split
    · next hopens =>
      rw [splitOuter_cons (by simp [hopens]), if_pos hopens]
      exact hstays _
    · next hopens =>
      split
      · next hcloses =>
        rw [splitOuter_cons (by simp [hcloses]), if_neg hopens, if_pos hcloses]
        exact hstays _
      · next hcloses =>
        split
        · next hcut =>
          have hrest := ih (before ++ piece ++ [token]) [] depth
          rw [modifyHead_nil_append, List.append_nil, List.append_assoc (before ++ piece)] at hrest
          simp only [List.singleton_append, List.length_append, List.length_singleton,
            List.length_nil, Nat.add_zero] at hrest
          rw [slice_length, pure_bind, hrest]
          simp [splitOuter, hopens, hcloses, hcut]
        · next hstay =>
          rw [splitOuter_cons (by simp [hopens, hcloses, hstay]), if_neg hopens, if_neg hcloses]
          exact hstays _

theorem argumentsByPosition_eq (tokens : List Token) :
    argumentsByPosition tokens = pure (arguments tokens) := by
  unfold argumentsByPosition arguments
  split
  · rfl
  · have h := argumentsFrom_eq [] [] tokens 0
    rwa [modifyHead_nil_append] at h

end Token

end DecisionLang
