import DecisionLang.Line
import DecisionLang.Proofs.Token.Rescanned
import Mathlib.Data.List.Chain

/-!
# Texts put together from tokens

`Token.Spells` builds a text from the texts of tokens and single spaces, each token with an end and
each negative number where a sign can stand. Such a text is scanned as these tokens
(`Token.exists_scanFrom_of_spells`). The tokens of a line that has been read meet the conditions by
themselves: `TokenKind.Signed` and `Line.rescans_of_read`.
-/

namespace DecisionLang

namespace Token

/-- A text that spells tokens of these kinds after a token of kind `previous`. -/
inductive Spells : Option TokenKind → List Char → List TokenKind → Prop
  | nil {previous : Option TokenKind} : Spells previous [] []
  | space {previous : Option TokenKind} {text : List Char} {kinds : List TokenKind}
      (h : Spells previous text kinds) : Spells previous (' ' :: text) kinds
  | token {previous : Option TokenKind} {kind : TokenKind} {text : List Char}
      {kinds : List TokenKind} (hkind : kind.Rescans)
      (hsign : kind.isNegative = true → allowsSign previous = true)
      (hends : kind.isMark = true ∨ Ends text) (h : Spells (some kind) text kinds) :
      Spells previous (kind.text.toList ++ text) (kind :: kinds)

variable {previous : Option TokenKind} {text others : List Char} {kinds kinds' : List TokenKind}

/-- A text is scanned as the tokens that it spells. -/
theorem exists_scanFrom_of_spells (h : Spells previous text kinds) (column : Nat) :
    ∃ tokens, scanFrom column previous text = .ok tokens ∧ tokens.map kind = kinds := by
  induction h generalizing column with
  | nil => exact ⟨[], by rw [scanFrom], rfl⟩
  | space _ ih =>
    obtain ⟨tokens, hscan, hkinds⟩ := ih (column + 1)
    refine ⟨tokens, ?_, hkinds⟩
    rw [scanFrom, if_pos (by decide), hscan]
  | token hkind hsign hends _ ih =>
    obtain ⟨c, cs, htext, hblank, hscan⟩ := hkind
    obtain ⟨tokens, hrest, hkinds⟩ := ih (column + 1 + cs.length)
    refine ⟨⟨_, column⟩ :: tokens, ?_, congrArg _ hkinds⟩
    rw [htext, List.cons_append, scanFrom, hblank, if_neg Bool.false_ne_true,
      hscan _ _ hsign hends]
    simp only [List.drop_left, hrest]

theorem Ends.append (h : Ends text) (hothers : Ends others) : Ends (text ++ others) := by
  cases text with
  | nil => exact hothers
  | cons c cs => exact h

/-- A text that spells tokens may follow another where it ends the last token of that. -/
theorem Spells.append (h : Spells previous text kinds) (hends : Ends others)
    (hothers : ∀ previous, Spells previous others kinds') :
    Spells previous (text ++ others) (kinds ++ kinds') := by
  induction h with
  | nil => exact hothers _
  | space _ ih => exact ih.space
  | token hkind hsign hends' _ ih =>
    rw [List.append_assoc, List.cons_append]
    exact ih.token hkind hsign (hends'.imp_right (·.append hends))

end Token

/-! ### Scanned lines -/

/-- A negative number stands only where a sign can. -/
def TokenKind.Signed (kinds : List TokenKind) : Prop :=
  kinds.IsChain fun kind next => next.isNegative = true → Token.allowsSign (some kind) = true

namespace Token

variable {previous : Option TokenKind} {text : List Char} {column : Nat} {tokens : List Token}

theorem signed_of_scanFrom (h : scanFrom column previous text = .ok tokens) :
    (∀ token ∈ tokens.head?, token.kind.isNegative = true → allowsSign previous = true) ∧
      TokenKind.Signed (tokens.map kind) := by
  rw [scanFrom_eq_ok_iff] at h
  induction h with
  | nil => exact ⟨by rintro _ ⟨⟩, .nil⟩
  | blank _ _ ih => exact ih
  | token _ htoken _ ih =>
    obtain ⟨hhead, hsigned⟩ := ih
    refine ⟨?_, ?_⟩
    · rintro _ ⟨⟩
      exact allowsSign_of_scanToken htoken
    · refine List.isChain_cons.2 ⟨?_, hsigned⟩
      rw [List.head?_map]
      rintro _ hnext
      obtain ⟨token, htoken, rfl⟩ := Option.map_eq_some_iff.1 hnext
      exact hhead token htoken

theorem rescans_of_scanFrom (h : scanFrom column previous text = .ok tokens) :
    ∀ token ∈ tokens, token.kind.isComment = false →
      (∀ value, token.kind = .number value → value.IsWritten) → token.kind.Rescans := by
  intro token htoken
  obtain ⟨_, _, _, _, hscanned⟩ := exists_scanToken_of_mem h token htoken
  exact rescans_of_scanToken hscanned

/-- Only the last token can be a comment. -/
theorem isComment_of_mem_dropLast (h : scanFrom column previous text = .ok tokens) :
    ∀ token ∈ tokens.dropLast, token.kind.isComment = false := by
  rw [scanFrom_eq_ok_iff] at h
  induction h with
  | nil => exact List.forall_mem_nil _
  | blank _ _ ih => exact ih
  | @token column more previous kind c cs tokens hblank htoken rest ih =>
    cases tokens with
    | nil => exact List.forall_mem_nil _
    | cons next others =>
      rw [List.dropLast_cons_cons, List.forall_mem_cons]
      refine ⟨?_, ih⟩
      cases hcomment : kind.isComment with
      | false => rfl
      | true =>
        have hmore : more = cs.length := more_of_isComment htoken hcomment
        rw [hmore, List.drop_length] at rest
        cases rest

end Token

namespace Line

variable {file : String} {index : Nat} {text : String} {line : Line}

theorem isComment_eq (token : Token) : isComment token = token.kind.isComment := by
  unfold isComment TokenKind.isComment
  split <;> simp_all

theorem exists_scan_of_read (h : read file index text = .ok line) :
    ∃ tokens, Token.scan text = .ok tokens ∧ line.tokens <+: tokens ∧
      ∀ token ∈ line.tokens, token.kind.isComment = false := by
  unfold read at h
  split at h
  · next tokens hscan =>
    cases h
    refine ⟨tokens, hscan, ?_⟩
    have hdropLast := Token.isComment_of_mem_dropLast hscan
    unfold ofTokens
    split
    · next last hlast =>
      split
      · exact ⟨List.dropLast_prefix tokens, hdropLast⟩
      · next hcomment =>
        refine ⟨List.prefix_refl _, fun token htoken => ?_⟩
        rw [← List.dropLast_append_getLast? last hlast, List.mem_append] at htoken
        rcases htoken with htoken | htoken
        · exact hdropLast token htoken
        · rw [List.mem_singleton.1 htoken, ← isComment_eq]
          exact Bool.eq_false_iff.2 hcomment
    · exact ⟨List.nil_prefix, nofun⟩
  · cases h

theorem exists_read_of_scan {tokens : List Token} (h : Token.scan text = .ok tokens)
    (hcomment : ∀ token ∈ tokens, token.kind.isComment = false) :
    ∃ line, read file index text = .ok line ∧ line.tokens = tokens := by
  refine ⟨ofTokens file index text tokens, by rw [read, h], ?_⟩
  unfold ofTokens
  split
  · next last hlast =>
    rw [isComment_eq, hcomment last (List.mem_of_getLast? hlast), if_neg Bool.false_ne_true]
  · next hlast => exact (List.getLast?_eq_none_iff.1 hlast).symm

/-- The tokens of a line are scanned again from their texts, numbers if these read back. -/
theorem rescans_of_read (h : read file index text = .ok line)
    (hnumbers : ∀ token ∈ line.tokens, ∀ value, token.kind = .number value → value.IsWritten) :
    ∀ token ∈ line.tokens, token.kind.Rescans := by
  obtain ⟨tokens, hscan, hstart, hcomment⟩ := exists_scan_of_read h
  intro token htoken
  exact Token.rescans_of_scanFrom hscan token (hstart.subset htoken) (hcomment token htoken)
    (hnumbers token htoken)

theorem signed_of_read (h : read file index text = .ok line) :
    TokenKind.Signed (line.tokens.map Token.kind) := by
  obtain ⟨tokens, hscan, hstart, _⟩ := exists_scan_of_read h
  exact List.IsChain.prefix (Token.signed_of_scanFrom hscan).2 (hstart.map Token.kind)

end Line

end DecisionLang
