import DecisionLang.Proofs.Token.Nesting

/-!
# Bracket levels

The level of a run of tokens is the number of brackets that it opens less the number of those that
it closes, of both kinds alike. A place in a run is outside all brackets if nothing that ends there
opens more brackets than it closes. Main statements: brackets balance exactly if the operators
outside brackets can be listed (`isSome_outerOperatorsFrom?`), those listed are all that stand where
no bracket is open (`listsOuter_outerOperators?`), and a bracket closes where the level first comes
back to zero (`matchingClose?_eq_some_iff`).
-/

namespace DecisionLang.Token

/-- What one token adds to the level. -/
def weight (token : Token) : Int := if token.opens then 1 else if token.closes then -1 else 0

def level : List Token → Int
  | [] => 0
  | token :: rest => token.weight + level rest

def Balanced (tokens : List Token) : Prop :=
  (∀ before, before <+: tokens → 0 ≤ level before) ∧ level tokens = 0

/-- Behind these tokens no bracket is open: nothing that ends there opens more than it closes. -/
def NoneOpen (tokens : List Token) : Prop := ∀ last, last <:+ tokens → level last ≤ 0

/-- The tokens from one place to another, both included, bring the level back to zero. -/
def ReturnsAt (tokens : List Token) (start stop : Nat) : Prop :=
  start ≤ stop ∧ stop < tokens.length ∧ level ((tokens.take (stop + 1)).drop start) = 0

def IsFirst (holds : Nat → Prop) (number : Nat) : Prop :=
  holds number ∧ ∀ earlier < number, ¬ holds earlier

/-- All binary operators outside brackets with their places, in order. -/
structure ListsOuter (tokens : List Token) (found : List (Nat × Operator)) : Prop where
  ordered : found.Pairwise fun first second => first.1 < second.1
  mem_iff : ∀ index operator, (index, operator) ∈ found ↔
    operator.isBinary = true ∧ tokens[index]?.bind operator? = some operator ∧
      NoneOpen (tokens.take index)

variable {token : Token} {tokens rest before : List Token}

theorem weight_of_opens (hopens : token.opens = true) : token.weight = 1 := if_pos hopens

theorem weight_of_closes (hopens : ¬ token.opens = true) (hcloses : token.closes = true) :
    token.weight = -1 := by
  rw [weight, if_neg hopens, if_pos hcloses]

theorem weight_of_plain (hopens : ¬ token.opens = true) (hcloses : ¬ token.closes = true) :
    token.weight = 0 := by
  rw [weight, if_neg hopens, if_neg hcloses]

@[simp] theorem level_nil : level [] = 0 := rfl

@[simp] theorem level_cons : level (token :: rest) = token.weight + level rest := rfl

@[simp] theorem level_append (first second : List Token) :
    level (first ++ second) = level first + level second := by
  induction first with
  | nil => rw [List.nil_append, level_nil, Int.zero_add]
  | cons token first ih => rw [List.cons_append, level_cons, level_cons, ih, Int.add_assoc]

/-! ### Balance -/

/-- Brackets balance if as many as `depth` are open in front. -/
def BalancedFrom (depth : Int) (tokens : List Token) : Prop :=
  (∀ before, before <+: tokens → 0 ≤ depth + level before) ∧ depth + level tokens = 0

theorem balancedFrom_zero : BalancedFrom 0 tokens ↔ Balanced tokens := by
  simp [BalancedFrom, Balanced]

theorem BalancedFrom.nonneg {depth : Int} (h : BalancedFrom depth tokens) : 0 ≤ depth := by
  simpa using h.1 [] List.nil_prefix

theorem balancedFrom_cons {depth : Int} (hdepth : 0 ≤ depth) :
    BalancedFrom depth (token :: rest) ↔ BalancedFrom (depth + token.weight) rest := by
  unfold BalancedFrom
  rw [level_cons, Int.add_assoc]
  refine and_congr_left' ⟨fun h before hbefore => ?_, fun h before hbefore => ?_⟩
  · simpa [Int.add_assoc] using h (token :: before) (List.cons_prefix_cons.2 ⟨rfl, hbefore⟩)
  · cases before with
    | nil => simpa using hdepth
    | cons first before =>
      obtain ⟨rfl, hrest⟩ := List.cons_prefix_cons.1 hbefore
      simpa [Int.add_assoc] using h before hrest

theorem isSome_outerOperatorsFrom? (index depth : Nat) (tokens : List Token) :
    (outerOperatorsFrom? index depth tokens).isSome = true ↔ BalancedFrom depth tokens := by
  induction tokens generalizing index depth with
  | nil =>
    unfold outerOperatorsFrom?
    split
    · next hdepth => simp [BalancedFrom, hdepth]
    · next hdepth => simp [BalancedFrom, hdepth]
  | cons token rest ih =>
    rw [balancedFrom_cons (Int.natCast_nonneg depth), outerOperatorsFrom?.eq_def]
    simp only
    split
    · next hopens =>
      rw [ih, weight_of_opens hopens]
      rfl
    · next hopens =>
      split
      · next hcloses =>
        rw [weight_of_closes hopens hcloses]
        split
        · exact iff_of_false Bool.noConfusion fun h => absurd h.nonneg (by decide)
        · next depth =>
          rw [ih, Int.natCast_succ, Int.add_neg_cancel_right]
      · next hcloses =>
        rw [weight_of_plain hopens hcloses, Int.add_zero]
        split
        · rw [Option.isSome_map, ih]
        · rw [ih]

/-! ### Operators outside brackets -/

theorem plain_of_binary {operator : Operator} (hoperator : token.operator? = some operator)
    (hbinary : operator.isBinary = true) : token.opens = false ∧ token.closes = false :=
  plain_of_operator? hoperator (by rintro hrole; simp [Operator.isBinary, hrole] at hbinary)

/-- The operators that are found stand where the level of what is before them is zero. -/
theorem mem_outerOperatorsFrom?_iff {depth index : Nat} {found : List (Nat × Operator)}
    (hfound : outerOperatorsFrom? index depth tokens = some found) (point : Nat × Operator) :
    point ∈ found ↔ point.2.isBinary = true ∧ ∃ offset, index + offset = point.1 ∧
      tokens[offset]?.bind operator? = some point.2 ∧ depth + level (tokens.take offset) = 0 := by
  induction tokens generalizing index depth found with
  | nil =>
    unfold outerOperatorsFrom? at hfound
    split at hfound <;> cases hfound
    simp
  | cons token rest ih =>
    have hlater {depth' : Nat} {found' : List (Nat × Operator)}
        (hdepth : (depth' : Int) = depth + token.weight)
        (hfound' : outerOperatorsFrom? (index + 1) depth' rest = some found') :
        point ∈ found' ↔ point.2.isBinary = true ∧ ∃ offset, index + (offset + 1) = point.1 ∧
          (token :: rest)[offset + 1]?.bind operator? = some point.2 ∧
          depth + level ((token :: rest).take (offset + 1)) = 0 := by
      rw [ih hfound', hdepth]
      simp [Nat.add_assoc, Nat.add_comm 1, Int.add_assoc]
    rw [← Nat.or_exists_add_one, and_or_left]
    simp only [Nat.add_zero, List.getElem?_cons_zero, Option.bind_some, List.take_zero, level_nil,
      Int.add_zero]
    rw [outerOperatorsFrom?.eq_def] at hfound
    simp only at hfound
    split at hfound
    · next hopens =>
      have hweight := weight_of_opens hopens
      rw [hlater (by omega) hfound, or_iff_right]
      rintro ⟨hbinary, -, hsign, -⟩
      rw [(plain_of_binary hsign hbinary).1] at hopens
      cases hopens
    · next hopens =>
      split at hfound
      · next hcloses =>
        split at hfound
        · cases hfound
        · have hweight := weight_of_closes hopens hcloses
          rw [hlater (by omega) hfound, or_iff_right]
          rintro ⟨hbinary, -, hsign, -⟩
          rw [(plain_of_binary hsign hbinary).2] at hcloses
          cases hcloses
      · next hcloses =>
        have hdepth : (depth : Int) = depth + token.weight := by
          rw [weight_of_plain hopens hcloses, Int.add_zero]
        split at hfound
        · next operator hfilter =>
          obtain ⟨later, hfound', rfl⟩ := Option.map_eq_some_iff.1 hfound
          rw [List.mem_cons, hlater hdepth hfound']
          refine or_congr_left ?_
          obtain ⟨hoperator, houter⟩ := Option.filter_eq_some_iff.1 hfilter
          obtain ⟨rfl, hbinary⟩ : depth = 0 ∧ operator.isBinary = true := by simpa using houter
          refine ⟨?_, ?_⟩
          · rintro rfl
            exact ⟨hbinary, rfl, hoperator, rfl⟩
          · rintro ⟨-, hindex, hsign, -⟩
            exact Prod.ext hindex.symm (Option.some.inj (hsign.symm.trans hoperator))
        · next hfilter =>
          rw [hlater hdepth hfound, or_iff_right]
          rintro ⟨hbinary, -, hsign, houter⟩
          simp [hsign, hbinary, Int.natCast_eq_zero.1 houter] at hfilter

theorem pairwise_outerOperatorsFrom? {depth index : Nat} {found : List (Nat × Operator)}
    (hfound : outerOperatorsFrom? index depth tokens = some found) :
    found.Pairwise fun first second => first.1 < second.1 := by
  induction tokens generalizing index depth found with
  | nil =>
    unfold outerOperatorsFrom? at hfound
    split at hfound <;> cases hfound
    exact .nil
  | cons token rest ih =>
    rw [outerOperatorsFrom?.eq_def] at hfound
    simp only at hfound
    split at hfound
    · exact ih hfound
    · split at hfound
      · split at hfound
        · cases hfound
        · exact ih hfound
      · split at hfound
        · next operator hfilter =>
          obtain ⟨later, hfound', rfl⟩ := Option.map_eq_some_iff.1 hfound
          refine List.pairwise_cons.2 ⟨fun point hpoint => ?_, ih hfound'⟩
          obtain ⟨-, offset, hindex, -⟩ := (mem_outerOperatorsFrom?_iff hfound' point).1 hpoint
          omega
        · exact ih hfound

/-- Where brackets balance, the level in front of a place is zero exactly if no bracket is open
there. -/
theorem Balanced.level_eq_zero_iff (h : Balanced tokens) (hbefore : before <+: tokens) :
    level before = 0 ↔ NoneOpen before := by
  refine ⟨?_, fun hnone => ?_⟩
  · rintro hzero last ⟨front, rfl⟩
    have hfront := h.1 front ((List.prefix_append front last).trans hbefore)
    rw [level_append] at hzero
    omega
  · have hlevel := h.1 before hbefore
    have hall := hnone before List.suffix_rfl
    omega

theorem listsOuter_outerOperators? {found : List (Nat × Operator)}
    (hfound : outerOperators? tokens = some found) : ListsOuter tokens found where
  ordered := pairwise_outerOperatorsFrom? hfound
  mem_iff index operator := by
    have hbalanced : Balanced tokens := balancedFrom_zero.1 <|
      (isSome_outerOperatorsFrom? 0 0 tokens).1 (Option.isSome_iff_exists.2 ⟨found, hfound⟩)
    rw [mem_outerOperatorsFrom?_iff hfound]
    refine and_congr_right fun _ => ?_
    simp only [Nat.zero_add, exists_eq_left, Int.natCast_zero, Int.zero_add,
      hbalanced.level_eq_zero_iff (List.take_prefix _ _)]

/-! ### Closing brackets -/

variable {holds : Nat → Prop} {number : Nat}

theorem isFirst_add {offset : Nat} (h : ∀ number < offset, ¬ holds number) :
    IsFirst holds (number + offset) ↔ IsFirst (fun number => holds (number + offset)) number := by
  refine and_congr_right fun _ => ⟨fun hfirst earlier hlt => ?_, fun hfirst earlier hlt => ?_⟩
  · exact hfirst (earlier + offset) (Nat.add_lt_add_right hlt offset)
  · by_cases hoffset : earlier < offset
    · exact h earlier hoffset
    · obtain ⟨earlier, rfl⟩ := Nat.exists_eq_add_of_le' (Nat.le_of_not_lt hoffset)
      exact hfirst earlier (Nat.lt_of_add_lt_add_right hlt)

theorem isFirst_iff_of_zero (h : holds 0) : IsFirst holds number ↔ number = 0 := by
  refine ⟨fun hfirst => ?_, ?_⟩
  · exact Nat.eq_zero_of_not_pos fun hpos => hfirst.2 0 hpos h
  · rintro rfl
    exact ⟨h, fun _ hlt => absurd hlt (Nat.not_lt_zero _)⟩

theorem eq_none_iff_of_isFirst {found : Option Nat}
    (h : ∀ number, found = some number ↔ IsFirst holds number) :
    found = none ↔ ∀ number, ¬ holds number := by
  refine ⟨?_, fun hnone => ?_⟩
  · rintro rfl number
    induction number using Nat.strongRecOn with
    | ind number ih => exact fun hnumber => nomatch (h number).2 ⟨hnumber, ih⟩
  · cases found with
    | none => rfl
    | some number => exact absurd ((h number).1 rfl).1 (hnone number)

theorem closeAfter?_eq_some_iff {depth : Nat} (hdepth : 0 < depth) (distance : Nat) :
    closeAfter? depth tokens = some distance ↔
      IsFirst (fun last => last < tokens.length ∧ depth + level (tokens.take (last + 1)) = 0)
        distance := by
  induction tokens generalizing depth distance with
  | nil => simp [closeAfter?, IsFirst]
  | cons token rest ih =>
    have hpass {depth' : Nat} (hdepth' : 0 < depth')
        (hweight : (depth' : Int) = depth + token.weight) :
        (closeAfter? depth' rest).map (· + 1) = some distance ↔
          IsFirst (fun last => last < (token :: rest).length ∧
            depth + level ((token :: rest).take (last + 1)) = 0) distance := by
      have hzero : ¬ (0 < (token :: rest).length ∧
          depth + level ((token :: rest).take (0 + 1)) = 0) := by
        simp
        omega
      cases distance with
      | zero => exact iff_of_false (by simp) fun hfirst => hzero hfirst.1
      | succ distance =>
        rw [isFirst_add fun number hlt => by rwa [Nat.lt_one_iff.1 hlt]]
        simpa [← Int.add_assoc, ← hweight] using ih hdepth' distance
    rw [closeAfter?.eq_def]
    simp only
    split
    · next hopens =>
      have hweight := weight_of_opens hopens
      exact hpass (Nat.succ_pos _) (by omega)
    · next hopens =>
      split
      · next hcloses =>
        have hweight := weight_of_closes hopens hcloses
        split
        · exact absurd hdepth (Nat.lt_irrefl 0)
        · rw [isFirst_iff_of_zero (by simp [hweight]), Option.some.injEq, eq_comm]
        · next depth _ => exact hpass (Nat.pos_of_ne_zero ‹_›) (by omega)
      · next hcloses =>
        have hweight := weight_of_plain hopens hcloses
        exact hpass hdepth (by omega)

/-- At an opening bracket, the level of what starts with it comes back to zero where it closes. -/
theorem matchingClose?_eq_some_iff {opening : Token} {index : Nat}
    (hopening : tokens[index]? = some opening) (hopens : opening.opens = true) (close : Nat) :
    matchingClose? tokens index = some close ↔ IsFirst (ReturnsAt tokens index) close := by
  obtain ⟨hlt, rfl⟩ := List.getElem?_eq_some_iff.1 hopening
  have hdrop := List.drop_eq_getElem_cons hlt
  have hearlier : ∀ stop < index + 1, ¬ ReturnsAt tokens index stop := by
    rintro stop hstop ⟨hle, -, hlevel⟩
    obtain rfl : stop = index := Nat.le_antisymm (Nat.le_of_lt_succ hstop) hle
    rw [List.drop_take, Nat.add_sub_cancel_left, hdrop, List.take_succ_cons, List.take_zero,
      level_cons, level_nil, weight_of_opens hopens] at hlevel
    exact absurd hlevel (by decide)
  rw [matchingClose?, hdrop, closeAfter?.eq_def]
  simp only [hopens, if_true, Option.map_map]
  by_cases hclose : close < index + 1
  · refine iff_of_false (fun h => ?_) fun h => hearlier close hclose h.1
    obtain ⟨distance, -, rfl⟩ := Option.map_eq_some_iff.1 h
    have hclose : distance + 1 + index < index + 1 := hclose
    omega
  · obtain ⟨distance, rfl⟩ := Nat.exists_eq_add_of_le' (Nat.le_of_not_lt hclose)
    have hreturns (last : Nat) : (last < (tokens.drop (index + 1)).length ∧
        (1 : Nat) + level ((tokens.drop (index + 1)).take (last + 1)) = 0) ↔
        ReturnsAt tokens index (last + (index + 1)) := by
      have hlength : last + (index + 1) + 1 - index = last + 1 + 1 := by omega
      rw [ReturnsAt, List.drop_take, hlength, hdrop, List.take_succ_cons, level_cons,
        weight_of_opens hopens, List.length_drop]
      omega
    rw [isFirst_add hearlier, ← funext fun last => propext (hreturns last),
      ← closeAfter?_eq_some_iff Nat.one_pos, Option.map_eq_some_iff]
    refine ⟨?_, fun hfound => ⟨distance, hfound, Nat.add_right_comm distance 1 index⟩⟩
    rintro ⟨last, hlast, hsum⟩
    have hsum : last + 1 + index = distance + (index + 1) := hsum
    obtain rfl : last = distance := by omega
    exact hlast

end DecisionLang.Token
