import DecisionLang.Proofs.Layout.Shifted
import DecisionLang.Proofs.Reading.Content
import DecisionLang.Proofs.Token.Spelled
import DecisionLang.Proofs.Token.Tiling

/-!
# Margins and comments do not change tokens

The tokens of a text do not depend on the column it starts in (`Token.exists_scanFrom_shift`), so
another margin shifts them (`Token.scan_other_margin`). White space stops every token that can be
stopped, and so does the white space before a comment: a comment at the end of a line is one more
token (`Token.exists_scanFrom_comment`).
-/

namespace DecisionLang

/-! ### White space -/

namespace Text

variable {c : Char}

theorem not_isWordPart_of_isBlank (h : isBlank c = true) : Token.isWordPart c = false := by
  have hunderscore : c ≠ '_' := by
    rintro rfl
    cases h
  have hletter : c.isAlpha = (decide (c.val ≥ 'A'.val ∧ c.val ≤ 'Z'.val) ||
      (decide (c.val ≥ 'a'.val) && decide (c.val ≤ 'z'.val))) := rfl
  simp only [isBlank, Char.toNat, Bool.or_eq_true, Bool.and_eq_true, decide_eq_true_eq,
    beq_iff_eq] at h
  simp only [Token.isWordPart, Char.isAlphanum, hletter, Char.isDigit, ge_iff_le,
    UInt32.le_iff_toNat_le, Bool.or_eq_false_iff, Bool.and_eq_false_iff, decide_eq_false_iff_not,
    Char.reduceVal, UInt32.reduceToNat, beq_eq_false_iff_ne]
  exact ⟨by omega, hunderscore⟩

theorem ne_of_isBlank (h : isBlank c = true) :
    c ≠ '.' ∧ c ≠ '"' ∧ c ≠ '/' ∧ c.isDigit = false := by
  refine ⟨?_, ?_, ?_, ?_⟩
  · rintro rfl
    cases h
  · rintro rfl
    cases h
  · rintro rfl
    cases h
  · have hpart := not_isWordPart_of_isBlank h
    simp only [Token.isWordPart, Char.isAlphanum, Bool.or_eq_false_iff] at hpart
    exact hpart.1.2

end Text

namespace TokenKind

variable {previous : Option TokenKind} {kind : TokenKind} {before after : List Char}

def StartsBlank (text : List Char) : Prop := ∃ c rest, text = c :: rest ∧ Text.isBlank c = true

theorem isBlank_of_mem_spelling {sign : Operator} {c : Char} (h : c ∈ sign.spelling.toList) :
    Text.isBlank c = false := by
  have hall : (sign.spelling.toList.all fun c => !Text.isBlank c) = true := by
    cases sign <;> decide
  simpa using List.all_eq_true.1 hall c h

theorem head?_append_cases (hafter : StartsBlank after) {c : Char}
    (h : c ∈ (before ++ after).head?) : Text.isBlank c = true ∧ before = [] ∨ c ∈ before.head? := by
  obtain ⟨blank, rest, rfl, hblank⟩ := hafter
  cases before with
  | nil =>
    cases h
    exact .inl ⟨hblank, rfl⟩
  | cons first before => exact .inr h

theorem StopsWord.append_blank (h : StopsWord before) (hpoint : before ≠ ['.'])
    (hafter : StartsBlank after) : StopsWord (before ++ after) := by
  intro c hc
  rcases head?_append_cases hafter hc with ⟨hblank, _⟩ | hc
  · exact ⟨Text.not_isWordPart_of_isBlank hblank,
      fun heq => absurd heq (Text.ne_of_isBlank hblank).1⟩
  · obtain ⟨hpart, hspread⟩ := h c hc
    refine ⟨hpart, ?_⟩
    rintro rfl
    exact (tail_head?_append hc hpoint).trans (hspread rfl)

theorem StopsOperator.append_blank {sign : Operator} (h : StopsOperator previous sign before)
    (hafter : StartsBlank after) : StopsOperator previous sign (before ++ after) where
  longest other hother := by
    obtain ⟨blank, rest, rfl, hblank⟩ := hafter
    rw [← List.append_assoc] at hother
    rcases List.prefix_or_prefix_of_prefix hother (List.prefix_append _ _) with hshort | hlong
    · exact h.longest other hshort
    · obtain ⟨more, hmore⟩ := hlong
      rw [← hmore, List.prefix_append_right_inj] at hother
      cases more with
      | nil =>
        rw [List.append_nil] at hmore
        exact h.longest other (hmore ▸ List.prefix_refl _)
      | cons c more =>
        obtain ⟨others, hothers⟩ := hother
        cases hothers
        have hmem : blank ∈ other.spelling.toList := by simp [← hmore]
        rw [isBlank_of_mem_spelling hmem] at hblank
        cases hblank
  comment hsign hhead := by
    rcases head?_append_cases hafter hhead with ⟨hblank, _⟩ | hhead
    · exact (Text.ne_of_isBlank hblank).2.2.1 rfl
    · exact h.comment hsign hhead
  number hsign hallows := by
    rw [Option.any_eq_false]
    intro c hc
    rcases head?_append_cases hafter hc with ⟨hblank, _⟩ | hc
    · simpa using (Text.ne_of_isBlank hblank).2.2.2
    · exact (Option.any_eq_false _ _).1 (h.number hsign hallows) c hc

/-- What stops a token that is no comment still stops it before white space, but for a single
point. -/
theorem Stops.append_blank (h : kind.Stops previous before) (hcomment : kind.isComment = false)
    (hpoint : before ≠ ['.']) (hafter : StartsBlank after) :
    kind.Stops previous (before ++ after) := by
  cases kind with
  | word text =>
    refine ⟨h.1.append_blank hpoint hafter, fun heq hhead => ?_⟩
    rcases head?_append_cases hafter hhead with ⟨hblank, _⟩ | hhead
    · exact (Text.ne_of_isBlank hblank).2.1 rfl
    · exact h.2 heq hhead
  | boolean | path => exact StopsWord.append_blank h hpoint hafter
  | number =>
    intro c hc
    rcases head?_append_cases hafter hc with ⟨hblank, _⟩ | hc
    · exact ⟨Text.not_isWordPart_of_isBlank hblank, (Text.ne_of_isBlank hblank).1⟩
    · exact h c hc
  | quoted | moment => trivial
  | operator => exact StopsOperator.append_blank h hafter
  | comment => cases hcomment

end TokenKind

/-! ### Columns -/

namespace Token

variable {column : Nat} {previous : Option TokenKind} {text gap : List Char} {tokens : List Token}

/-- What a text is scanned as in one column it is scanned as in every column. -/
theorem exists_scanFrom_shift (h : scanFrom column previous text = .ok tokens) :
    ∃ base : List Token, ∀ start,
      scanFrom start previous text = .ok (base.map (shift (start + ·))) := by
  rw [scanFrom_eq_ok_iff] at h
  induction h with
  | nil => exact ⟨[], fun start => scanFrom_nil⟩
  | blank hblank _ ih =>
    obtain ⟨base, hbase⟩ := ih
    refine ⟨base.map (shift (1 + ·)), fun start => ?_⟩
    rw [scanFrom, if_pos hblank, hbase, List.map_map]
    exact congrArg Except.ok (List.map_congr_left fun token _ => by simp [shift, Nat.add_assoc])
  | @token column more previous kind c cs tokens hblank htoken _ ih =>
    obtain ⟨base, hbase⟩ := ih
    refine ⟨⟨kind, 0⟩ :: base.map (shift (1 + more + ·)), fun start => ?_⟩
    rw [scanFrom, if_neg hblank, htoken]
    dsimp only
    rw [hbase, List.map_cons, List.map_map]
    have hrest : base.map (shift (start + 1 + more + ·)) =
        base.map (shift (start + ·) ∘ shift (1 + more + ·)) :=
      List.map_congr_left fun token _ => by simp [shift, Nat.add_assoc]
    rw [hrest]
    rfl

/-! ### Margins -/

theorem scan_margin {margin : String} (hmargin : ∀ c ∈ margin.toList, c = '\t' ∨ c = ' ')
    (body : String) :
    scan (margin ++ body) = scanFrom (1 + margin.length) none body.toList := by
  have hblank : ∀ c ∈ margin.toList, Text.isBlank c = true := by
    intro c hc
    rcases hmargin c hc with rfl | rfl <;> rfl
  rw [scan, String.toList_append, scanFrom_blank_append hblank, String.length_toList]

/-- Another margin shifts the tokens. They start where the margin ends, so that nothing is cut off
when its length is taken away. -/
theorem scan_other_margin {margin margin' body : String}
    (hmargin : ∀ c ∈ margin.toList, c = '\t' ∨ c = ' ')
    (hmargin' : ∀ c ∈ margin'.toList, c = '\t' ∨ c = ' ')
    (h : scan (margin ++ body) = .ok tokens) :
    scan (margin' ++ body) =
      .ok (tokens.map (shift (· - margin.length + margin'.length))) := by
  rw [scan_margin hmargin] at h
  obtain ⟨base, hbase⟩ := exists_scanFrom_shift h
  rw [hbase] at h
  cases h
  rw [scan_margin hmargin', hbase, List.map_map]
  refine congrArg Except.ok (List.map_congr_left fun token _ => ?_)
  simp only [shift, Function.comp_apply]
  congr 1
  omega

/-! ### Comments -/

theorem scanFrom_comment (column : Nat) (previous : Option TokenKind) (content : List Char) :
    scanFrom column previous ('/' :: '/' :: content) =
      .ok [⟨.comment (String.ofList (Text.trim content)), column⟩] := by
  have hstands : (TokenKind.comment (String.ofList (Text.trim content))).Stands previous
      ('/' :: '/' :: content) [] := .mk .comment (fun hsign => absurd hsign Bool.false_ne_true) rfl
  rw [← scanFrom_append hstands scanFrom_nil, List.append_nil]

/-- A comment after white space is one more token of a text without a comment. -/
theorem exists_scanFrom_comment (h : scanFrom column previous text = .ok tokens)
    (hcomment : ∀ token ∈ tokens, token.kind.isComment = false)
    (hgap : ∀ c ∈ gap, Text.isBlank c = true) (hne : gap ≠ []) (content : List Char) :
    ∃ comment : Token, comment.kind.isComment = true ∧
      scanFrom column previous (text ++ (gap ++ '/' :: '/' :: content)) =
        .ok (tokens ++ [comment]) := by
  have hafter : TokenKind.StartsBlank (gap ++ '/' :: '/' :: content) := by
    obtain ⟨c, rest, rfl⟩ := List.exists_cons_of_ne_nil hne
    exact ⟨c, _, rfl, hgap c List.mem_cons_self⟩
  rw [scanFrom_eq_ok_iff] at h
  induction h with
  | nil => exact ⟨_, rfl, by rw [List.nil_append, scanFrom_blank_append hgap, scanFrom_comment]; rfl⟩
  | blank hblank _ ih =>
    obtain ⟨comment, hkind, hscan⟩ := ih hcomment
    exact ⟨comment, hkind, by rw [List.cons_append, scanFrom, if_pos hblank, hscan]⟩
  | @token column more previous kind c cs tokens hblank htoken rest ih =>
    obtain ⟨hkind, hothers⟩ := List.forall_mem_cons.1 hcomment
    obtain ⟨body, after, rfl, rfl, hstands⟩ := scanToken_eq_ok_iff.1 htoken
    obtain ⟨comment, hlast, hscan⟩ := ih hothers
    have hrest := scanFrom_eq_ok_iff.2 rest
    rw [List.drop_left] at hrest hscan
    have hstands' : kind.Stands previous (c :: body)
        (after ++ (gap ++ '/' :: '/' :: content)) :=
      ⟨hstands.form, hstands.sign,
        hstands.stops.append_blank hkind (ne_point_of_scanFrom hrest) hafter⟩
    refine ⟨comment, hlast, ?_⟩
    rw [Nat.add_right_comm] at hscan
    have happend := scanFrom_append hstands' hscan
    simpa using happend

end Token

end DecisionLang
