import DecisionLang.Text.Lines
import DecisionLang.Token.Scan

/-!
# Scanned tokens

What scanning promises about the tokens of a line. `Token.Scans` follows a scan that succeeds token
by token. Main statement: a path that is scanned has two names or more (`Token.isProper_of_scan`).
-/

namespace DecisionLang

theorem Text.two_le_length_splitAt {separator : Char} {text : List Char} (h : separator ∈ text) :
    2 ≤ (splitAt separator text).length := by
  induction text with
  | nil => cases h
  | cons c cs ih =>
    unfold splitAt
    split
    · have := List.length_pos_iff.2 (splitAt_ne_nil separator cs)
      rw [List.length_cons]
      omega
    · next hne =>
      have hrest := ih ((List.mem_cons.1 h).resolve_left fun heq => hne heq.symm)
      split
      · next hnil =>
        rw [hnil] at hrest
        cases hrest
      · next hpieces =>
        rw [hpieces] at hrest
        exact hrest

namespace TokenKind

/-- A path has two names or more. -/
def IsProper : TokenKind → Prop
  | path parts => 2 ≤ parts.length
  | _ => True

end TokenKind

namespace Token

def IsProper (token : Token) : Prop := token.kind.IsProper

theorem isProper_of_scanWord {text : List Char} {scanned : Scanned}
    (h : scanWord text = .ok scanned) : scanned.kind.IsProper := by
  unfold scanWord at h
  dsimp only at h
  split at h
  · next hpoint =>
    split at h
    · cases h
      rw [TokenKind.IsProper, List.length_map]
      exact Text.two_le_length_splitAt (List.contains_iff_mem.1 hpoint)
    · cases h
  · split at h <;> cases h <;> trivial

theorem isProper_of_scanToken {previous : Option TokenKind} {c : Char} {cs : List Char}
    {scanned : Scanned} (h : scanToken previous c cs = .ok scanned) : scanned.kind.IsProper := by
  unfold scanToken at h
  split at h
  · cases h
    trivial
  split at h
  · unfold scanQuoted at h
    dsimp only at h
    split at h <;> cases h
    trivial
  split at h
  · unfold scanDate at h
    dsimp only at h
    split at h
    · split at h <;> cases h
      trivial
    · cases h
  split at h
  · unfold scanNumber at h
    simp only at h
    generalize (if (c :: cs).head? = some '-' then 1 else 0) = sign at h
    split at h <;> cases h
    trivial
  split at h
  · exact isProper_of_scanWord h
  · unfold scanOperator at h
    split at h <;> cases h
    trivial

/-- A scan without a fault passes over white space and takes each token where it starts. -/
inductive Scans : Nat → Option TokenKind → List Char → List Token → Prop
  | nil {column : Nat} {previous : Option TokenKind} : Scans column previous [] []
  | blank {column : Nat} {previous : Option TokenKind} {c : Char} {cs : List Char}
      {tokens : List Token} (hblank : Text.isBlank c = true)
      (rest : Scans (column + 1) previous cs tokens) : Scans column previous (c :: cs) tokens
  | token {column more : Nat} {previous : Option TokenKind} {kind : TokenKind} {c : Char}
      {cs : List Char} {tokens : List Token} (hblank : ¬Text.isBlank c = true)
      (htoken : scanToken previous c cs = .ok ⟨kind, more⟩)
      (rest : Scans (column + 1 + more) (some kind) (cs.drop more) tokens) :
      Scans column previous (c :: cs) (⟨kind, column⟩ :: tokens)

theorem scanFrom_eq_ok_iff {column : Nat} {previous : Option TokenKind} {text : List Char}
    {tokens : List Token} :
    scanFrom column previous text = .ok tokens ↔ Scans column previous text tokens := by
  constructor
  · intro h
    fun_induction scanFrom column previous text generalizing tokens with
    | case1 =>
      cases h
      exact .nil
    | case2 column previous c cs hblank ih => exact .blank hblank (ih h)
    | case3 => cases h
    | case4 => cases h
    | case5 column previous c cs hblank kind more htoken rest hrest ih =>
      cases h
      exact .token hblank htoken (ih hrest)
  · intro h
    induction h with
    | nil => rw [scanFrom]
    | blank hblank _ ih => rw [scanFrom, if_pos hblank, ih]
    | token hblank htoken _ ih =>
      rw [scanFrom, if_neg hblank, htoken]
      dsimp only
      rw [ih]

/-- Every token of a scanned text was scanned at some place in it. -/
theorem exists_scanToken_of_mem {column : Nat} {previous : Option TokenKind} {text : List Char}
    {tokens : List Token} (h : scanFrom column previous text = .ok tokens) :
    ∀ token ∈ tokens, ∃ before c cs more,
      scanToken before c cs = .ok ⟨token.kind, more⟩ := by
  rw [scanFrom_eq_ok_iff] at h
  induction h with
  | nil => exact nofun
  | blank _ _ ih => exact ih
  | token _ htoken _ ih => exact List.forall_mem_cons.2 ⟨⟨_, _, _, _, htoken⟩, ih⟩

@[simp] theorem scanFrom_nil {column : Nat} {previous : Option TokenKind} :
    scanFrom column previous [] = .ok [] := scanFrom_eq_ok_iff.2 .nil

/-- A text that is not blank has tokens. -/
theorem ne_nil_of_scanFrom {column : Nat} {previous : Option TokenKind} {text : List Char}
    {tokens : List Token} (h : scanFrom column previous text = .ok tokens)
    (htext : text.all Text.isBlank = false) : tokens ≠ [] := by
  rw [scanFrom_eq_ok_iff] at h
  induction h with
  | nil => cases htext
  | blank hblank _ ih =>
    rw [List.all_cons, hblank, Bool.true_and] at htext
    exact ih htext
  | token => exact List.cons_ne_nil _ _

theorem isProper_of_scan {line : String} {tokens : List Token} (h : scan line = .ok tokens) :
    ∀ token ∈ tokens, token.IsProper := by
  intro token htoken
  obtain ⟨_, _, _, _, hscanned⟩ := exists_scanToken_of_mem h token htoken
  exact isProper_of_scanToken hscanned

end Token

end DecisionLang
