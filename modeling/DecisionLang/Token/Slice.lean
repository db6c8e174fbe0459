import DecisionLang.Token

/-!
# Runs of tokens

Structural questions about a run of tokens: where a bracket closes, which operators stand outside
all brackets, and how arguments are separated. Both kinds of brackets count alike.
-/

namespace DecisionLang.Token

/-- The tokens joined with single spaces. -/
def describe (tokens : List Token) : String :=
  " ".intercalate (tokens.map text)

/-- Distance to the bracket that brings `depth` back to zero; none if there is no such bracket, or
if a bracket closes at depth zero first. -/
def closeAfter? (depth : Nat) : List Token → Option Nat
  | [] => none
  | token :: rest =>
    if token.opens then (closeAfter? (depth + 1) rest).map (· + 1)
    else if token.closes then
      match depth with
      | 0 => none
      | 1 => some 0
      | depth + 1 => (closeAfter? depth rest).map (· + 1)
    else (closeAfter? depth rest).map (· + 1)

/-- Index of the bracket closing the one at `index`. -/
def matchingClose? (tokens : List Token) (index : Nat) : Option Nat :=
  (closeAfter? 0 (tokens.drop index)).map (· + index)

/-- Binary operators outside all brackets with their indices, counted from `index`; none if the
brackets do not balance. -/
def outerOperatorsFrom? (index depth : Nat) : List Token → Option (List (Nat × Operator))
  | [] => if depth = 0 then some [] else none
  | token :: rest =>
    if token.opens then outerOperatorsFrom? (index + 1) (depth + 1) rest
    else if token.closes then
      match depth with
      | 0 => none
      | depth + 1 => outerOperatorsFrom? (index + 1) depth rest
    else
      match token.operator?.filter fun operator => depth == 0 && operator.isBinary with
      | some operator => (outerOperatorsFrom? (index + 1) depth rest).map ((index, operator) :: ·)
      | none => outerOperatorsFrom? (index + 1) depth rest

def outerOperators? (tokens : List Token) : Option (List (Nat × Operator)) :=
  outerOperatorsFrom? 0 0 tokens

/-- The pieces between argument separators outside brackets. A bracket that closes nothing is
passed over. -/
def splitOuter (depth : Nat) : List Token → List (List Token)
  | [] => [[]]
  | token :: rest =>
    if !token.opens && !token.closes && depth == 0 && token.isOperator .argumentSeparator then
      [] :: splitOuter depth rest
    else
      let depth :=
        if token.opens then depth + 1 else if token.closes then depth - 1 else depth
      match splitOuter depth rest with
      | [] => [[token]]
      | piece :: pieces => (token :: piece) :: pieces

/-- Arguments of a call: none for no tokens at all. -/
def arguments (tokens : List Token) : List (List Token) :=
  if tokens.isEmpty then [] else splitOuter 0 tokens

/-- The pieces between table separators, whatever the brackets. -/
def cellsBetween : List Token → List (List Token)
  | [] => [[]]
  | token :: rest =>
    if token.isOperator .tableSeparator then [] :: cellsBetween rest
    else
      match cellsBetween rest with
      | [] => [[token]]
      | piece :: pieces => (token :: piece) :: pieces

/-- Cells of a line wrapped in table separators. -/
def cells? (tokens : List Token) : Option (List (List Token)) :=
  match tokens with
  | first :: rest@(_ :: _) =>
    if first.isOperator .tableSeparator && rest.getLast?.any (isOperator .tableSeparator) then
      some (cellsBetween rest.dropLast)
    else none
  | _ => none

theorem length_le_of_mem_splitOuter {tokens : List Token} {depth : Nat} {piece : List Token}
    (h : piece ∈ splitOuter depth tokens) : piece.length ≤ tokens.length := by
  induction tokens generalizing depth piece with
  | nil => simp_all [splitOuter]
  | cons token rest ih =>
    unfold splitOuter at h
    split at h
    · rcases List.mem_cons.1 h with rfl | h
      · simp
      · exact Nat.le_succ_of_le (ih h)
    · dsimp only at h
      split at h
      · simp_all
      · next head pieces hs =>
        rcases List.mem_cons.1 h with rfl | h
        · have := ih (hs ▸ List.mem_cons_self : head ∈ _)
          simpa using this
        · exact Nat.le_succ_of_le (ih (hs ▸ List.mem_cons_of_mem _ h))

theorem length_le_of_mem_arguments {tokens piece : List Token} (h : piece ∈ arguments tokens) :
    piece.length ≤ tokens.length := by
  unfold arguments at h
  split at h
  · simp at h
  · exact length_le_of_mem_splitOuter h

theorem lt_length_of_mem_outerOperatorsFrom? {tokens : List Token} {index depth : Nat}
    {found : List (Nat × Operator)} {point : Nat × Operator}
    (h : outerOperatorsFrom? index depth tokens = some found) (hp : point ∈ found) :
    point.1 < index + tokens.length := by
  induction tokens generalizing index depth found with
  | nil =>
    unfold outerOperatorsFrom? at h
    split at h
    · cases h
      simp at hp
    · cases h
  | cons token rest ih =>
    unfold outerOperatorsFrom? at h
    simp only [List.length_cons]
    split at h
    · have := ih h hp
      omega
    · split at h
      · split at h
        · cases h
        · have := ih h hp
          omega
      · split at h
        · obtain ⟨later, hl, rfl⟩ := Option.map_eq_some_iff.1 h
          rcases List.mem_cons.1 hp with rfl | hp
          · simp
          · have := ih hl hp
            omega
        · have := ih h hp
          omega

/-- An operator outside all brackets is one of the tokens. -/
theorem lt_length_of_mem_outerOperators? {tokens : List Token} {found : List (Nat × Operator)}
    {point : Nat × Operator} (h : outerOperators? tokens = some found) (hp : point ∈ found) :
    point.1 < tokens.length := by
  simpa using lt_length_of_mem_outerOperatorsFrom? h hp

end DecisionLang.Token
