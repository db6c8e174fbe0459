import DecisionLang.Proofs.Token.Spelled
import DecisionLang.Token.Slice

/-!
# Described lines

`Token.describe` writes tokens with single spaces between them, each in a form of its own: numbers,
dates and comments are written anew. Main statement: what is written of a line is a line with the
same tokens, `Token.exists_scan_describe`. All that spaces could change is where a number may start
with a minus, and that depends on the token before it alone; a comment swallows all that follows it,
but nothing follows it.
-/

namespace DecisionLang

namespace Token

variable {previous : Option TokenKind} {text : List Char} {column : Nat} {tokens : List Token}

theorem form_text_of_scanFrom (h : scanFrom column previous text = .ok tokens) :
    ∀ token ∈ tokens, (∀ value, token.kind = .number value → value.IsWritten) →
      token.kind.Form token.text.toList := by
  intro token htoken
  obtain ⟨_, _, _, _, hscanned⟩ := exists_scanToken_of_mem h token htoken
  obtain ⟨_, _, _, _, hstands⟩ := scanToken_eq_ok_iff.1 hscanned
  exact TokenKind.form_text hstands.form

theorem toList_describe_cons_cons (first second : Token) (rest : List Token) :
    (describe (first :: second :: rest)).toList =
      first.text.toList ++ ' ' :: (describe (second :: rest)).toList := by
  simp [describe, String.toList_intercalate]

/-- Tokens are scanned from their texts with spaces between them, if these have the forms of their
kinds, negative numbers stand where a sign can, and no token before the last one is a comment. -/
theorem exists_scanFrom_describe
    (hhead : ∀ token ∈ tokens.head?, token.kind.isNegative = true → allowsSign previous = true)
    (hsigned : TokenKind.Signed (tokens.map kind))
    (hcomment : ∀ token ∈ tokens.dropLast, token.kind.isComment = false)
    (hform : ∀ token ∈ tokens, token.kind.Form token.text.toList) (column : Nat) :
    ∃ others, scanFrom column previous (describe tokens).toList = .ok others ∧
      others.map kind = tokens.map kind := by
  induction tokens generalizing previous column with
  | nil => exact ⟨[], scanFrom_nil, rfl⟩
  | cons first rest ih =>
    obtain ⟨hfirst, hform⟩ := List.forall_mem_cons.1 hform
    cases rest with
    | nil =>
      have hdescribe : (describe [first]).toList = first.text.toList ++ [] := by simp [describe]
      have hstops : first.kind.Stops previous [] := by
        cases hplain : first.kind.isComment with
        | false => exact TokenKind.stops_of_ends hplain (.inr ends_nil)
        | true => exact (TokenKind.stops_iff_of_isComment hplain).2 rfl
      rw [hdescribe]
      exact ⟨_, scanFrom_append ⟨hfirst, hhead first rfl, hstops⟩ scanFrom_nil, rfl⟩
    | cons second rest =>
      rw [List.dropLast_cons_cons, List.forall_mem_cons] at hcomment
      rw [List.map_cons, List.map_cons] at hsigned
      obtain ⟨hnext, hsigned⟩ := List.isChain_cons_cons.1 hsigned
      have hnext : ∀ token ∈ (second :: rest).head?, token.kind.isNegative = true →
          allowsSign (some first.kind) = true := by
        rintro _ ⟨⟩
        exact hnext
      obtain ⟨others, hscan, hkinds⟩ :=
        ih hnext hsigned hcomment.2 hform (column + first.text.toList.length + 1)
      rw [toList_describe_cons_cons]
      refine ⟨_, scanFrom_append ⟨hfirst, hhead first rfl, ?_⟩ ?_, congrArg (first.kind :: ·) hkinds⟩
      · exact TokenKind.stops_of_ends hcomment.1 (.inr (ends_cons rfl))
      · rw [scanFrom, if_pos (by decide), hscan]

/-- What is written of the tokens of a line, with single spaces between them, is a line with the
same tokens, comment included. The numbers of the line are those that their texts are read as. -/
theorem exists_scan_describe {line : String} (h : scan line = .ok tokens)
    (hnumbers : ∀ token ∈ tokens, ∀ value, token.kind = .number value → value.IsWritten) :
    ∃ others, scan (describe tokens) = .ok others ∧ others.map kind = tokens.map kind := by
  obtain ⟨hhead, hsigned⟩ := signed_of_scanFrom h
  exact exists_scanFrom_describe hhead hsigned (isComment_of_mem_dropLast h)
    (fun token htoken => form_text_of_scanFrom h token htoken (hnumbers token htoken)) 1

/-- A line where numbers, dates, signs and comments are written in other ways than tokens are. -/
def looseLine : String := "x=-1.50*(y...)-d\"2024-2-3\"//  done "

theorem exists_scan_describe_looseLine :
    ∃ tokens, scan looseLine = .ok tokens ∧
      (∀ token ∈ tokens, ∀ value, token.kind = .number value → value.IsWritten) ∧
      ∃ others, scan (describe tokens) = .ok others ∧ others.map kind = tokens.map kind := by
  have hok : (scan looseLine).toOption.any (fun tokens => tokens.all fun token =>
      token.kind == .number (.ofDecimal ['-', '1', '.', '5']) ||
        token.kind.describe != "number literal") = true := by decide +kernel
  obtain ⟨tokens, hscan, hall⟩ := (Option.any_eq_true _ _).1 hok
  have hscan : scan looseLine = .ok tokens := by
    cases h : scan looseLine <;> simp_all [Except.toOption]
  have hnumbers : ∀ token ∈ tokens, ∀ value, token.kind = .number value → value.IsWritten := by
    intro token htoken value hvalue
    have hkind := List.all_eq_true.1 hall token htoken
    rw [hvalue, Bool.or_eq_true, beq_iff_eq] at hkind
    rcases hkind with hkind | hkind
    · cases hkind
      decide +kernel
    · cases hkind
  exact ⟨tokens, hscan, hnumbers, exists_scan_describe hscan hnumbers⟩

end Token

end DecisionLang
