import DecisionLang.Proofs.Token.Rescanned

/-!
# Tokens tile their line

Scanning goes from place to place, over white space and then over a token that stands there
(`Token.Tiles`), and either comes to the end of the line or stops at a character where no token
stands. Main statement: `Token.scan_tiles`, with the columns that follow from it, and with what
stands before the place where scanning stopped: it would have been scanned as the tokens found.
-/

namespace DecisionLang

namespace TokenKind

variable {previous : Option TokenKind} {kind : TokenKind} {span before after : List Char}

theorem stops_nil (previous : Option TokenKind) (kind : TokenKind) : kind.Stops previous [] := by
  cases hcomment : kind.isComment with
  | false => exact stops_of_ends hcomment (.inr Token.ends_nil)
  | true => exact (stops_iff_of_isComment hcomment).2 rfl

theorem mem_head?_append {c : Char} (h : c ∈ before.head?) : c ∈ (before ++ after).head? := by
  obtain ⟨cs, rfl⟩ := List.head?_eq_some_iff.1 h
  rfl

theorem tail_head?_append {c : Char} (hc : c ∈ before.head?) (hpoint : before ≠ [c]) :
    (before ++ after).tail.head? = before.tail.head? := by
  obtain ⟨cs, rfl⟩ := List.head?_eq_some_iff.1 hc
  cases cs with
  | nil => exact absurd rfl hpoint
  | cons => rfl

/-- Of points it matters how many there are: one after a word would go on with it, two do not. -/
theorem StopsWord.of_append (h : StopsWord (before ++ after)) (hpoint : before ≠ ['.']) :
    StopsWord before := by
  intro c hc
  obtain ⟨hpart, hspread⟩ := h c (mem_head?_append hc)
  refine ⟨hpart, ?_⟩
  rintro rfl
  exact tail_head?_append hc hpoint ▸ hspread rfl

theorem StopsOperator.of_append {sign : Operator} (h : StopsOperator previous sign (before ++ after)) :
    StopsOperator previous sign before where
  longest other hother := by
    refine h.longest other (hother.trans ?_)
    rw [← List.append_assoc]
    exact List.prefix_append _ _
  comment hsign hhead := h.comment hsign (mem_head?_append hhead)
  number hsign hallows := by
    rw [Option.any_eq_false]
    intro c hc
    exact (Option.any_eq_false _ _).1 (h.number hsign hallows) c (mem_head?_append hc)

/-- What stops a token stops it even if it is cut short, but for two points of which one is left. -/
theorem Stops.of_append (h : kind.Stops previous (before ++ after)) (hpoint : before ≠ ['.']) :
    kind.Stops previous before := by
  cases kind with
  | word text => exact ⟨h.1.of_append hpoint, fun heq hhead => h.2 heq (mem_head?_append hhead)⟩
  | boolean | path => exact StopsWord.of_append h hpoint
  | number => exact fun c hc => h c (mem_head?_append hc)
  | quoted | moment => trivial
  | operator => exact StopsOperator.of_append h
  | comment => exact (List.append_eq_nil_iff.1 h).1

end TokenKind

namespace Token

/-- Where scanning has come to in a text: the column, the kind of the last token, and the text that
is left. -/
structure Place where
  column : Nat
  previous : Option TokenKind
  rest : List Char

/-- Tokens that lie one after the other between two places, with nothing but white space between
them. Each has the form of its kind, goes on as far as it can, and is scanned by itself as the token
that it is. -/
inductive Tiles : Place → List Token → Place → Prop
  | gap {column : Nat} {previous : Option TokenKind} {gap rest : List Char}
      (hgap : ∀ c ∈ gap, Text.isBlank c = true) :
      Tiles ⟨column, previous, gap ++ rest⟩ [] ⟨column + gap.length, previous, rest⟩
  | token {column : Nat} {previous : Option TokenKind} {gap span rest : List Char}
      {kind : TokenKind} {tokens : List Token} {place : Place}
      (hgap : ∀ c ∈ gap, Text.isBlank c = true) (hstands : kind.Stands previous span rest)
      (halone : scan (String.ofList span) = .ok [⟨kind, 1⟩])
      (hrest : Tiles ⟨column + gap.length + span.length, some kind, rest⟩ tokens place) :
      Tiles ⟨column, previous, gap ++ (span ++ rest)⟩ (⟨kind, column + gap.length⟩ :: tokens) place

variable {column : Nat} {previous : Option TokenKind} {text span rest : List Char}
  {kind : TokenKind} {tokens found : List Token} {start place : Place}

/-- A token is scanned by itself as what it is in its text: a sign can stand at the start of a line,
and nothing follows. -/
theorem scan_of_stands (h : kind.Stands previous span rest) :
    scan (String.ofList span) = .ok [⟨kind, 1⟩] := by
  have halone : kind.Stands none span [] := ⟨h.form, fun _ => rfl, TokenKind.stops_nil _ _⟩
  have hscan : scanFrom 1 none (span ++ []) = .ok [⟨kind, 1⟩] := scanFrom_append halone scanFrom_nil
  rwa [scan, String.toList_ofList, ← List.append_nil span]

theorem Tiles.blank {c : Char} (hc : Text.isBlank c = true)
    (h : Tiles ⟨column + 1, previous, text⟩ tokens place) :
    Tiles ⟨column, previous, c :: text⟩ tokens place := by
  generalize hstart : Place.mk (column + 1) previous text = start at h
  cases h with
  | @gap _ _ gap rest hgap =>
    cases hstart
    have hlong : Tiles ⟨column, previous, c :: gap ++ rest⟩ []
        ⟨column + (c :: gap).length, previous, rest⟩ := .gap (List.forall_mem_cons.2 ⟨hc, hgap⟩)
    rwa [List.length_cons, Nat.add_comm gap.length, ← Nat.add_assoc] at hlong
  | @token _ _ gap _ _ _ _ _ hgap hstands halone hrest =>
    cases hstart
    have hcolumn : column + (c :: gap).length = column + 1 + gap.length := by
      rw [List.length_cons]
      omega
    rw [← hcolumn] at hrest ⊢
    exact .token (List.forall_mem_cons.2 ⟨hc, hgap⟩) hstands halone hrest

theorem Tiles.refl (place : Place) : Tiles place [] place := by
  have hgap : Tiles ⟨place.column, place.previous, [] ++ place.rest⟩ [] ⟨_, place.previous, _⟩ :=
    .gap (List.forall_mem_nil _)
  exact hgap

theorem Tiles.cons (hstands : kind.Stands previous span rest)
    (h : Tiles ⟨column + span.length, some kind, rest⟩ tokens place) :
    Tiles ⟨column, previous, span ++ rest⟩ (⟨kind, column⟩ :: tokens) place := by
  have htoken : Tiles ⟨column, previous, [] ++ (span ++ rest)⟩
      (⟨kind, column + [].length⟩ :: tokens) place :=
    .token (List.forall_mem_nil _) hstands (scan_of_stands hstands) h
  exact htoken

/-- Scanning a text either tiles it to its end, or tiles it up to a character at which no token can
be scanned. -/
theorem tiles_of_scanFrom (column : Nat) (previous : Option TokenKind) (text : List Char) :
    (∃ tokens place, scanFrom column previous text = .ok tokens ∧ place.rest = [] ∧
      Tiles ⟨column, previous, text⟩ tokens place) ∨
    ∃ fault found last c rest, ∃ stop : Nat,
      scanFrom column previous text = .error ⟨fault, stop⟩ ∧
      Tiles ⟨column, previous, text⟩ found ⟨stop, last, c :: rest⟩ ∧
      scanToken last c rest = .error fault := by
  fun_induction scanFrom column previous text with
  | case1 => exact .inl ⟨_, _, rfl, rfl, .refl _⟩
  | case2 column previous c cs hblank ih =>
    rcases ih with ⟨tokens, place, hscan, hend, htiles⟩ |
      ⟨fault, found, last, d, rest, stop, hscan, htiles, hfault⟩
    · exact .inl ⟨tokens, place, hscan, hend, htiles.blank hblank⟩
    · exact .inr ⟨fault, found, last, d, rest, stop, hscan, htiles.blank hblank, hfault⟩
  | case3 column previous c cs _ fault hfault =>
    exact .inr ⟨fault, [], previous, c, cs, column, rfl, .refl _, hfault⟩
  | case4 column previous c cs _ kind more htoken error herror ih =>
    obtain ⟨body, rest, rfl, rfl, hstands⟩ := scanToken_eq_ok_iff.1 htoken
    rw [List.drop_left] at ih herror
    rcases ih with ⟨tokens, place, hscan, _⟩ |
      ⟨fault, found, last, d, others, stop, hscan, htiles, hfault⟩
    · rw [herror] at hscan
      cases hscan
    · rw [herror] at hscan
      cases hscan
      rw [Nat.add_right_comm] at htiles
      exact .inr ⟨fault, _, last, d, others, stop, rfl, .cons hstands htiles, hfault⟩
  | case5 column previous c cs _ kind more htoken tokens hrest ih =>
    obtain ⟨body, rest, rfl, rfl, hstands⟩ := scanToken_eq_ok_iff.1 htoken
    rw [List.drop_left] at ih hrest
    rcases ih with ⟨others, place, hscan, hend, htiles⟩ | ⟨_, _, _, _, _, _, hscan, _⟩
    · rw [hrest] at hscan
      cases hscan
      rw [Nat.add_right_comm] at htiles
      exact .inl ⟨_, place, rfl, hend, .cons hstands htiles⟩
    · rw [hrest] at hscan
      cases hscan

/-! ### Columns -/

theorem Tiles.column_le (h : Tiles start tokens place) : start.column ≤ place.column := by
  induction h with
  | gap => exact Nat.le_add_right _ _
  | token _ _ _ _ ih =>
    dsimp only at ih ⊢
    omega

theorem Tiles.columns (h : Tiles start tokens place) :
    tokens.Pairwise (fun first second => first.column < second.column) ∧
      ∀ token ∈ tokens, start.column ≤ token.column ∧ token.column < place.column := by
  induction h with
  | gap => exact ⟨.nil, List.forall_mem_nil _⟩
  | @token column previous gap span rest kind tokens place hgap hstands halone hrest ih =>
    obtain ⟨hpairwise, hbounds⟩ := ih
    have hspan : 0 < span.length := by
      obtain ⟨c, body, rfl, _⟩ := hstands.form.exists_cons
      exact Nat.succ_pos _
    have hplace := hrest.column_le
    dsimp only at hbounds hplace ⊢
    refine ⟨List.pairwise_cons.2 ⟨fun token htoken => ?_, hpairwise⟩,
      List.forall_mem_cons.2 ⟨⟨Nat.le_add_right _ _, by dsimp only; omega⟩,
        fun token htoken => ?_⟩⟩
    · have := hbounds token htoken
      dsimp only
      omega
    · have := hbounds token htoken
      omega

/-! ### What stands before a place -/

theorem scanFrom_blank_append {gap : List Char} (hgap : ∀ c ∈ gap, Text.isBlank c = true) :
    scanFrom column previous (gap ++ text) = scanFrom (column + gap.length) previous text := by
  induction gap generalizing column with
  | nil => rfl
  | cons c gap ih =>
    obtain ⟨hc, hgap⟩ := List.forall_mem_cons.1 hgap
    rw [List.cons_append, scanFrom, if_pos hc, ih hgap, List.length_cons, Nat.add_assoc,
      Nat.add_comm 1]

theorem ne_point_of_scanFrom (h : scanFrom column previous text = .ok tokens) : text ≠ ['.'] := by
  rintro rfl
  have hscan : scanToken previous '.' [] = .error (.invalidCharacter '.') := rfl
  rw [scanFrom, if_neg (by decide), hscan] at h
  cases h

theorem Tiles.exists_before (h : Tiles start tokens place) :
    ∃ before, start.rest = before ++ place.rest ∧ place.column = start.column + before.length ∧
      scanFrom start.column start.previous before = .ok tokens := by
  induction h with
  | @gap column previous gap rest hgap =>
    refine ⟨gap, rfl, rfl, ?_⟩
    rw [← List.append_nil gap, scanFrom_blank_append hgap, scanFrom_nil]
  | @token column previous gap span rest kind tokens place hgap hstands halone hrest ih =>
    obtain ⟨before, hbefore, hcolumn, hscan⟩ := ih
    dsimp only at hbefore hcolumn hscan
    subst hbefore
    refine ⟨gap ++ (span ++ before), by simp, ?_, ?_⟩
    · simp only [List.length_append]
      omega
    · rw [scanFrom_blank_append hgap]
      exact scanFrom_append ⟨hstands.form, hstands.sign,
        hstands.stops.of_append (ne_point_of_scanFrom hscan)⟩ hscan

/-- A line is scanned as tokens that tile it, in increasing columns counted from one; or scanning
stops in a column of the line where no token can be scanned after the tokens found so far, and what
stands before that column is scanned by itself as these tokens. -/
theorem scan_tiles (line : String) :
    (∃ tokens place, scan line = .ok tokens ∧ place.rest = [] ∧
      Tiles ⟨1, none, line.toList⟩ tokens place ∧
      tokens.Pairwise (fun first second => first.column < second.column) ∧
      ∀ token ∈ tokens, 1 ≤ token.column ∧ token.column ≤ line.length) ∨
    ∃ error found before last c rest, scan line = .error error ∧
      line.toList = before ++ c :: rest ∧ error.column = before.length + 1 ∧
      Tiles ⟨1, none, line.toList⟩ found ⟨error.column, last, c :: rest⟩ ∧
      scanToken last c rest = .error error.fault ∧
      scan (String.ofList before) = .ok found := by
  rcases tiles_of_scanFrom 1 none line.toList with ⟨tokens, place, hscan, hend, htiles⟩ |
    ⟨fault, found, last, c, rest, stop, hscan, htiles, hfault⟩
  · left
    obtain ⟨hpairwise, hbounds⟩ := htiles.columns
    obtain ⟨before, hbefore, hcolumn, -⟩ := htiles.exists_before
    have hlength : line.length = before.length := by
      rw [hend, List.append_nil] at hbefore
      rw [← String.length_toList, ← hbefore]
    refine ⟨tokens, place, hscan, hend, htiles, hpairwise, fun token htoken => ?_⟩
    have hbound := hbounds token htoken
    dsimp only at hbound hcolumn
    omega
  · right
    obtain ⟨before, hbefore, hcolumn, halone⟩ := htiles.exists_before
    refine ⟨⟨fault, stop⟩, found, before, last, c, rest, hscan, hbefore, ?_, htiles, hfault, ?_⟩
    · rw [← Nat.add_comm 1]
      exact hcolumn
    · rw [scan, String.toList_ofList]
      exact halone

end Token

end DecisionLang
