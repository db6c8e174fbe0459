import DecisionLang.Proofs.Grammar.Written
import DecisionLang.Proofs.Token.Sealed

/-!
# Brackets of accepted lines

Rules count brackets of both kinds alike, so they never look at the kind of a closing bracket: a
line is read as if every closing bracket were the counterpart of the innermost open one. Whatever
is read is written back as that mended line, and the brackets of the line are nested by kind exactly
if nothing had to be mended (`Grammar.nested_iff_of_read`).
-/

namespace DecisionLang

namespace Token

variable {tokens : List Token}

/-- An operator that is found outside all brackets is a binary one, and stands where it was found. -/
theorem exists_sign_of_mem_outerOperatorsFrom? {index depth : Nat} {found : List (Nat × Operator)}
    {point : Nat × Operator} (hfound : outerOperatorsFrom? index depth tokens = some found)
    (hpoint : point ∈ found) :
    ∃ before sign after, tokens = before ++ sign :: after ∧ index + before.length = point.1 ∧
      sign.operator? = some point.2 ∧ point.2.isBinary = true := by
  induction tokens generalizing index depth found with
  | nil =>
    unfold outerOperatorsFrom? at hfound
    split at hfound
    · cases hfound
      cases hpoint
    · cases hfound
  | cons token rest ih =>
    have hlater {depth' : Nat} {found' : List (Nat × Operator)}
        (hfound' : outerOperatorsFrom? (index + 1) depth' rest = some found')
        (hpoint' : point ∈ found') :
        ∃ before sign after, token :: rest = before ++ sign :: after ∧
          index + before.length = point.1 ∧ sign.operator? = some point.2 ∧
          point.2.isBinary = true := by
      obtain ⟨before, sign, after, rfl, hindex, hsign⟩ := ih hfound' hpoint'
      refine ⟨token :: before, sign, after, rfl, ?_, hsign⟩
      simp only [List.length_cons]
      omega
    unfold outerOperatorsFrom? at hfound
    split at hfound
    · exact hlater hfound hpoint
    · split at hfound
      · split at hfound
        · cases hfound
        · exact hlater hfound hpoint
      · split at hfound
        · next operator hfilter =>
          obtain ⟨hoperator, houter⟩ := Option.filter_eq_some_iff.1 hfilter
          obtain ⟨later, hfound', rfl⟩ := Option.map_eq_some_iff.1 hfound
          rcases List.mem_cons.1 hpoint with rfl | hpoint'
          · rw [Bool.and_eq_true] at houter
            exact ⟨[], token, rest, rfl, rfl, hoperator, houter.2⟩
          · exact hlater hfound' hpoint'
        · exact hlater hfound hpoint

/-- What counting finds is a closing bracket. -/
theorem closes_of_closeAfter? {depth : Nat} {inside after : List Token} {last : Token}
    (h : closeAfter? depth (inside ++ last :: after) = some inside.length) :
    last.closes = true := by
  induction inside generalizing depth with
  | nil =>
    rw [List.nil_append, closeAfter?.eq_def] at h
    dsimp only at h
    split at h
    · simp at h
    · split at h
      · assumption
      · simp at h
  | cons token inside ih =>
    have hlater (depth' : Nat) (hlater : (closeAfter? depth' (inside ++ last :: after)).map (· + 1) =
        some (inside.length + 1)) : last.closes = true := by
      obtain ⟨distance, hdistance, hlength⟩ := Option.map_eq_some_iff.1 hlater
      cases hlength
      exact ih hdistance
    rw [List.cons_append, closeAfter?.eq_def, List.length_cons] at h
    dsimp only at h
    split at h
    · exact hlater _ h
    · split at h
      · split at h
        · cases h
        · simp at h
        · exact hlater _ h
      · exact hlater _ h

end Token

theorem WrittenType.sealed_kind (type : WrittenType) : TokenKind.Sealed [type.kind] := by
  cases type with
  | primitive | implicit => exact TokenKind.sealed_word _
  | named path =>
    obtain ⟨root, members⟩ := path
    cases members <;> exact (TokenKind.sealed_cons rfl rfl rfl).2 TokenKind.sealed_nil

theorem NamePath.sealed_kind (path : NamePath) : TokenKind.Sealed [path.kind] :=
  (WrittenType.named path).sealed_kind

theorem ColumnName.sealed_kind (column : ColumnName) : TokenKind.Sealed [column.kind] :=
  (TokenKind.sealed_cons rfl rfl rfl).2 TokenKind.sealed_nil

theorem Expr.sealed_callKinds {function : String} {arguments : List (List TokenKind)}
    (h : ∀ argument ∈ arguments, TokenKind.Nested argument) :
    TokenKind.Sealed (callKinds function arguments) := by
  have hseparator : TokenKind.Nested [.operator .argumentSeparator] := by decide
  rw [callKinds, List.cons_append, TokenKind.sealed_cons rfl rfl rfl]
  exact (TokenKind.Nested.intercalate hseparator h).sealed rfl

theorem Expr.sealed_lookUp {mark : Mark} {function : TableFunction} {table : String}
    {reference : Reference} {discriminator : Option Expr} {value : Expr}
    {discriminatorColumn resultColumn : Option ColumnName} {searchColumn : ColumnName}
    (hdiscriminator : ∀ part ∈ discriminator, TokenKind.Nested part.kinds)
    (hvalue : TokenKind.Nested value.kinds) :
    TokenKind.Sealed (lookUp mark function table reference discriminator value discriminatorColumn
      searchColumn resultColumn).kinds := by
  rw [kinds]
  apply sealed_callKinds
  have hcolumn (column : ColumnName) := column.sealed_kind.nested
  have htable := TokenKind.nested_word table
  simp only [kinds?_eq, List.mem_append, List.mem_cons, Option.mem_toList, Option.map_eq_some_iff,
    List.cons_append, or_assoc]
  rintro argument (rfl | ⟨part, hpart, rfl⟩ | rfl | ⟨column, _, rfl⟩ | rfl | ⟨column, _, rfl⟩)
  · exact htable
  · exact hdiscriminator part hpart
  · exact hvalue
  · exact hcolumn column
  · exact hcolumn searchColumn
  · exact hcolumn column

namespace Shape.Found

variable {tiers : Tiers} {tokens : List Token}

theorem sign_of_binary {first sign : Token} {left right : List Token} {operator : Operator}
    (h : (Shape.binary first left sign operator right).Found tiers tokens) :
    sign.isOperator operator = true ∧ operator.isBinary = true := by
  cases h with
  | binary hcandidates hpoint =>
    obtain ⟨before, sign, after, htokens, hlength, hsign, hbinary⟩ :=
      Token.exists_sign_of_mem_outerOperatorsFrom? hcandidates (Tiers.mem_of_splitPoint? hpoint)
    rw [Nat.zero_add] at hlength
    obtain ⟨_, hright⟩ := List.append_inj htokens hlength.symm
    cases hright
    exact ⟨Token.isOperator_iff.2 hsign, hbinary⟩

theorem alike_call {first : Token} {function : String} {callTokens inner : List Token}
    (h : (Shape.call first function callTokens inner).Found tiers tokens)
    {arguments : List (List TokenKind)}
    (harguments : List.Forall₂ (List.Forall₂ TokenKind.Alike)
      ((Token.arguments inner).map (List.map Token.kind)) arguments) :
    List.Forall₂ TokenKind.Alike (tokens.map Token.kind) (Expr.callKinds function arguments) := by
  cases h with
  | @call _ _ last _ _ hfunction hbracket hclose =>
    have hlast := Token.closes_of_closeAfter? hclose
    have hinner := TokenKind.alike_intercalate [.operator .argumentSeparator] harguments
    rw [Token.intercalate_arguments] at hinner
    rw [List.cons_append, List.cons_append, List.map_cons, List.map_cons, List.map_append,
      Token.kind_of_name? hfunction, Token.kind_of_isOperator hbracket, Expr.callKinds]
    refine .cons (.inl rfl) (.cons (.inl rfl) (List.rel_append hinner (.cons (.inr ⟨?_, rfl⟩) .nil)))
    rw [Token.closes_kind, hlast]

end Shape.Found

namespace Grammar

variable {grammar : Grammar} {line : Line} {tokens : List Token} {next after : Nat} {result : Expr}

theorem alike_kinds {arguments : List (List Token)} {results : List Expr}
    (h : Numbered.InOrder (fun part _ result _ =>
      List.Forall₂ TokenKind.Alike (part.map Token.kind) result.kinds) arguments next results after) :
    List.Forall₂ (List.Forall₂ TokenKind.Alike) (arguments.map (List.map Token.kind))
      (results.map Expr.kinds) := by
  rw [List.forall₂_map_left_iff, List.forall₂_map_right_iff]
  exact h.forall₂ id

/-- Whatever is read is written back as its tokens up to closing brackets. -/
theorem alike_of_read (hproper : ∀ token ∈ tokens, token.IsProper)
    (h : (grammar.read line tokens).Gives next result after) :
    List.Forall₂ TokenKind.Alike (tokens.map Token.kind) result.kinds := by
  refine read_induction_of_parts (fun tokens => ∀ token ∈ tokens, token.IsProper)
    (motive := fun tokens _ result _ =>
      List.Forall₂ TokenKind.Alike (tokens.map Token.kind) result.kinds)
    ?_ ?_ hproper h
  · intro tokens shape hshape hproper part hpart token htoken
    exact hproper token ((found_of_recognize? hshape).subset_of_mem_parts hpart htoken)
  have hsame (kind : TokenKind) : kind.Alike kind := .inl rfl
  intro tokens next result after hproper hbuilds
  cases hbuilds with
  | branch hshape hwritten =>
    cases found_of_recognize? hshape with
    | branch hfirst =>
      rw [Shape.kinds_branchOf, List.map_cons, Token.kind_of_isKeyword hfirst]
      exact .cons (hsame _) hwritten
  | fallback hshape =>
    cases found_of_recognize? hshape with
    | fallback hfirst =>
      rw [Shape.kinds_fallbackOf, ← Token.kind_of_isKeyword hfirst]
      exact TokenKind.alike_refl _
  | spreadAssignment hshape hwritten =>
    cases found_of_recognize? hshape with
    | spreadAssignment hfirst hsign =>
      rw [Expr.kinds, List.map_cons, List.map_cons, Token.kind_of_isOperator hfirst,
        Token.kind_of_isOperator hsign]
      exact .cons (hsame _) (.cons (hsame _) hwritten)
  | declaration hshape =>
    cases found_of_recognize? hshape with
    | declaration htype hname =>
      simp [Expr.kinds, (hproper _ (by simp)).kind_ofToken? htype, Token.kind_of_name? hname, hsame]
  | declarationWith hshape hwritten =>
    cases found_of_recognize? hshape with
    | declarationWith htype hname hsign =>
      simp [Expr.kinds, (hproper _ (by simp)).kind_ofToken? htype, Token.kind_of_name? hname,
        Token.kind_of_isOperator hsign, hwritten, hsame]
  | assignment hshape hwritten =>
    cases found_of_recognize? hshape with
    | assignment htarget hsign =>
      rw [Expr.kinds, Shape.kinds_targetOf _ (hproper _ (by simp)) htarget, List.map_cons,
        List.map_cons, Token.kind_of_isOperator hsign]
      exact .cons (hsame _) (.cons (hsame _) hwritten)
  | binary hshape hwritten hwritten' =>
    have hfound := found_of_recognize? hshape
    have hsign := hfound.sign_of_binary.1
    cases hfound with
    | binary =>
      rw [Expr.kinds, List.map_append, List.map_cons, Token.kind_of_isOperator hsign]
      exact List.rel_append hwritten (.cons (hsame _) hwritten')
  | group hshape hwritten =>
    cases found_of_recognize? hshape with
    | group hfirst hclose =>
      have hlast := Token.closes_of_closeAfter? hclose
      rw [Expr.kinds, List.cons_append, List.map_cons, List.map_append,
        Token.kind_of_isOperator hfirst]
      refine .cons (hsame _) (List.rel_append hwritten (.cons (.inr ⟨?_, rfl⟩) .nil))
      rw [Token.closes_kind, hlast]
  | indexed hshape hwritten =>
    cases found_of_recognize? hshape with
    | indexed htable hbracket hclose =>
      have hlast := Token.closes_of_closeAfter? hclose
      rw [Expr.kinds, List.cons_append, List.cons_append, List.map_cons, List.map_cons,
        List.map_append, Token.kind_of_name? htable, Token.kind_of_isOperator hbracket]
      refine .cons (hsame _) (.cons (hsame _)
        (List.rel_append hwritten (.cons (.inr ⟨?_, rfl⟩) .nil)))
      rw [Token.closes_kind, hlast]
  | make hshape hfunction harguments htype =>
    have hfound := found_of_recognize? hshape
    have htype' := Shape.kinds_typePath? (fun token htoken => hproper token
      (hfound.subset_of_mem_parts (by simp [Shape.parts, harguments]) htoken)) htype
    rw [Expr.kinds, ObjectFunction.spelling_of_ofSpelling? hfunction]
    refine hfound.alike_call ?_
    rw [harguments, htype']
    exact .cons (TokenKind.alike_refl _) .nil
  | extract hshape hfunction harguments hwritten =>
    rw [Expr.kinds, ObjectFunction.spelling_of_ofSpelling? hfunction]
    refine (found_of_recognize? hshape).alike_call ?_
    rw [harguments]
    exact .cons hwritten .nil
  | lookUp pair? result? hshape hobject hfunction hpair hresult harguments htable hdiscriminator
      hwritten hdiscriminatorColumn hsearch hresultColumn =>
    have hcolumn := Shape.kinds_columnName? (pair?.map Prod.snd)
      (by rw [Option.map_map]; exact hdiscriminatorColumn)
    have hpairs := alike_kinds hdiscriminator
    rw [Expr.kinds, TableFunction.spelling_of_ofSpelling? hfunction, hcolumn,
      Shape.kinds_columnName? _ hresultColumn, Shape.kinds_columnName hsearch, Expr.kinds?_eq]
    refine (found_of_recognize? hshape).alike_call ?_
    have hrest (pieces : List (List TokenKind)) :
        List.Forall₂ (List.Forall₂ TokenKind.Alike) pieces pieces :=
      List.forall₂_same.2 fun piece _ => TokenKind.alike_refl piece
    simp only [harguments, List.map_append, List.map_cons, Option.toList_map, List.cons_append,
      List.append_assoc, Token.kind_of_name? htable] at hpairs ⊢
    exact .cons (TokenKind.alike_refl _) (List.rel_append hpairs (.cons hwritten (hrest _)))
  | call hshape hobject htable harguments =>
    rw [Expr.kinds, Expr.allKinds_eq]
    exact (found_of_recognize? hshape).alike_call (alike_kinds harguments)
  | spread hshape =>
    cases found_of_recognize? hshape with
    | spread hfirst => simp [Expr.kinds, Token.kind_of_isOperator hfirst, hsame]
  | path hshape =>
    cases found_of_recognize? hshape with
    | path hparts =>
      simp [Expr.kinds, (hproper _ (by simp)).parts_ofParts hparts, Token.kind_of_path? hparts,
        hsame]
  | literal hshape =>
    cases found_of_recognize? hshape with
    | literal hvalue => simp [Expr.kinds, Token.toKind_ofToken? hvalue, hsame]
  | name hshape =>
    cases found_of_recognize? hshape with
    | name hword => simp [Expr.kinds, Token.kind_of_name? hword, hsame]

/-- What is read is written back with nested brackets, whatever the brackets it was read from. -/
theorem nested_kinds_of_read (h : (grammar.read line tokens).Gives next result after) :
    TokenKind.Nested result.kinds := by
  refine read_induction (motive := fun _ _ result _ => TokenKind.Nested result.kinds) ?_ h
  intro tokens next result after hbuilds
  cases hbuilds with
  | branch _ hwritten =>
    rw [Shape.kinds_branchOf, TokenKind.nested_cons rfl rfl]
    exact hwritten
  | fallback =>
    rw [Shape.kinds_fallbackOf]
    exact TokenKind.nested_word _
  | spreadAssignment _ hwritten =>
    rw [Expr.kinds, TokenKind.nested_cons rfl rfl, TokenKind.nested_cons rfl rfl]
    exact hwritten
  | declaration =>
    rw [Expr.kinds]
    exact (WrittenType.sealed_kind _).nested.append (TokenKind.nested_word _)
  | declarationWith _ hwritten =>
    rw [Expr.kinds]
    refine (WrittenType.sealed_kind _).nested.append ?_
    rw [TokenKind.nested_cons rfl rfl, TokenKind.nested_cons rfl rfl]
    exact hwritten
  | @assignment first target _ _ _ _ _ hwritten =>
    have htarget : TokenKind.Nested
        (Shape.targetOf target ⟨next, line.tokenReference first⟩).kinds := by
      cases target <;> exact (TokenKind.nested_cons rfl rfl).2 TokenKind.nested_nil
    rw [Expr.kinds]
    exact htarget.append ((TokenKind.nested_cons rfl rfl).2 hwritten)
  | binary hshape hwritten hwritten' =>
    obtain ⟨_, hbinary⟩ := (found_of_recognize? hshape).sign_of_binary
    rw [Expr.kinds]
    exact hwritten.append (hwritten'.binary hbinary)
  | group _ hwritten => exact hwritten.enclosed rfl
  | indexed _ hwritten => exact (TokenKind.nested_cons rfl rfl).2 (hwritten.enclosed rfl)
  | @make _ _ _ _ _ _ _ type =>
    exact (Expr.sealed_callKinds (by simpa using type.sealed_kind.nested)).nested
  | extract _ _ _ hwritten => exact (Expr.sealed_callKinds (by simpa using hwritten)).nested
  | lookUp _ _ _ _ _ _ _ _ _ hdiscriminator hwritten =>
    have hdiscriminator' := hdiscriminator.forall_mem id
    exact (Expr.sealed_lookUp (by simpa using hdiscriminator') hwritten).nested
  | call _ _ _ harguments =>
    have hwritten := harguments.forall_mem id
    rw [Expr.kinds, Expr.allKinds_eq]
    exact (Expr.sealed_callKinds (List.forall_mem_map.2 hwritten)).nested
  | spread => exact (TokenKind.nested_cons rfl rfl).2 TokenKind.nested_nil
  | path => exact (TokenKind.nested_cons rfl rfl).2 TokenKind.nested_nil
  | @literal _ value =>
    cases value <;> exact (TokenKind.nested_cons rfl rfl).2 TokenKind.nested_nil
  | name => exact TokenKind.nested_word _

/-- Expressions are written back as the tokens they were read from. -/
theorem kinds_of_read (hproper : ∀ token ∈ tokens, token.IsProper) (hnested : Token.Nested tokens)
    (h : (grammar.read line tokens).Gives next result after) :
    result.kinds = tokens.map Token.kind := by
  rw [TokenKind.eq_mended_of_alike (alike_of_read hproper h) (nested_kinds_of_read h)]
  exact TokenKind.mended_of_nested (Token.nested_iff_kinds.1 hnested)

/-- An accepted line is written back with each closing bracket in the kind of the innermost open
one. Its brackets are nested by kind exactly if that changes none. -/
theorem nested_iff_of_read (hproper : ∀ token ∈ tokens, token.IsProper)
    (h : (grammar.read line tokens).Gives next result after) :
    result.kinds = TokenKind.mended (tokens.map Token.kind) ∧ TokenKind.Nested result.kinds ∧
      (Token.Nested tokens ↔
        TokenKind.mended (tokens.map Token.kind) = tokens.map Token.kind) := by
  have hnested := nested_kinds_of_read h
  have hmended := TokenKind.eq_mended_of_alike (alike_of_read hproper h) hnested
  refine ⟨hmended, hnested, fun hnested => ?_, fun heq => ?_⟩
  · exact TokenKind.mended_of_nested (Token.nested_iff_kinds.1 hnested)
  · rw [Token.nested_iff_kinds, ← heq, ← hmended]
    exact hnested

/-- The line `t[(x])`. -/
def crossedLine : Line :=
  .ofTokens "main" 0 "t[(x])" <|
    [.word "t", .operator .openBracket, .operator .openParenthesis, .word "x",
      .operator .closeBracket, .operator .closeParenthesis].map (⟨·, 1⟩)

theorem nested_iff_of_read_crossedLine :
    (∀ token ∈ crossedLine.tokens, token.IsProper) ∧
      ∃ result after, (standard.read crossedLine crossedLine.tokens).Gives 0 result after ∧
        result.kinds = TokenKind.mended (crossedLine.tokens.map Token.kind) ∧
          TokenKind.Nested result.kinds ∧
          (Token.Nested crossedLine.tokens ↔
            TokenKind.mended (crossedLine.tokens.map Token.kind) =
              crossedLine.tokens.map Token.kind) := by
  have hproper : ∀ token ∈ crossedLine.tokens, token.IsProper := by
    simp [crossedLine, Line.ofTokens, Line.isComment, Token.IsProper, TokenKind.IsProper]
  have hread : ((standard.read crossedLine crossedLine.tokens).run.run 0).1.isOk = true := by
    decide +kernel
  obtain ⟨result, after, h⟩ := Numbered.exists_gives hread
  exact ⟨hproper, result, after, h, nested_iff_of_read hproper h⟩

/-- The group `(A]`, with a bracket of the other kind at its end. -/
def mismatchedLine : Line where
  file := "test.lexy"
  index := 0
  text := "(A]"
  tokens := [⟨.operator .openParenthesis, 1⟩, ⟨.word "A", 2⟩, ⟨.operator .closeBracket, 3⟩]
  comment := none

theorem not_nested_mismatchedLine :
    Line.read "test.lexy" 0 "(A]" = .ok mismatchedLine ∧
      (∃ result after, (standard.readLine mismatchedLine).Gives 0 result after) ∧
      ¬ Token.Nested mismatchedLine.tokens := by
  have hscan : Token.scan "(A]" = .ok mismatchedLine.tokens := by decide +kernel
  have hread : ((standard.readLine mismatchedLine).run.run 0).1.isOk = true := by decide +kernel
  refine ⟨?_, Numbered.exists_gives hread, by decide⟩
  rw [Line.read, hscan]
  rfl

end Grammar

end DecisionLang
