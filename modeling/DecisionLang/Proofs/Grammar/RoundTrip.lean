import DecisionLang.Proofs.Grammar.Reread
import DecisionLang.Proofs.Grammar.Respelled

/-!
# Reading what was written

An expression that has been read from a line is legible once its text's brackets are put into it
(`Grammar.legible_of_read`). So its text is a line again, and what is read from this line is the same
expression but for marks, places and groups: `Grammar.exists_gives_of_text`.
-/

namespace DecisionLang

/-! ### Types -/

namespace WrittenType

variable {token other : Token} {type : WrittenType}

theorem ofToken?_congr (h : token.kind = other.kind) : ofToken? token = ofToken? other := by
  simp [ofToken?, Token.name?, Token.word?, h]

theorem isLegible_of_ofToken? (hproper : token.IsProper) (h : ofToken? token = some type) :
    type.IsLegible := by
  intro other hkind
  rw [← h]
  exact ofToken?_congr (hkind.trans (hproper.kind_ofToken? h))

end WrittenType

theorem Token.IsProper.members_ofParts {token : Token} {parts : List String}
    (hproper : token.IsProper) (h : token.path? = some parts) :
    (NamePath.ofParts parts).members ≠ [] := by
  match parts, hproper.two_le_length h with
  | _ :: _ :: _, _ => exact List.cons_ne_nil _ _

theorem Shape.isLegible_of_typePath? {token : Token} {argument : List Token} {type : NamePath}
    (hproper : ∀ token ∈ argument, token.IsProper)
    (h : typePath? argument = some (token, type)) : type.IsLegible := by
  unfold typePath? at h
  split at h
  · next single =>
    split at h
    · next parts hparts =>
      cases h
      intro hmembers
      exact absurd hmembers ((hproper token (by simp)).members_ofParts hparts)
    · obtain ⟨name, hname, h⟩ := Option.map_eq_some_iff.1 h
      cases h
      exact fun _ => (Token.name?_eq_some_iff.1 hname).2
  · cases h

/-! ### Parts in one stretch -/

theorem Token.isInfix_of_mem_arguments {tokens argument : List Token}
    (h : argument ∈ arguments tokens) : argument.map kind <:+: tokens.map kind := by
  rw [← intercalate_arguments tokens]
  exact Expr.isInfix_intercalate (List.mem_map_of_mem h)

/-- Parts stand in one stretch of what they were recognized in. -/
theorem Shape.Found.isInfix_of_mem_parts {tiers : Tiers} {tokens part : List Token} {shape : Shape}
    (h : shape.Found tiers tokens) (hpart : part ∈ shape.parts) :
    part.map Token.kind <:+: tokens.map Token.kind := by
  cases h with
  | @branch _ first subject =>
    rw [List.mem_singleton.1 hpart]
    exact (List.suffix_cons first subject).isInfix.map _
  | @spreadAssignment first sign invoked =>
    rw [List.mem_singleton.1 hpart]
    exact (List.suffix_append [first, sign] invoked).isInfix.map _
  | @declarationWith first second sign _ _ value =>
    rw [List.mem_singleton.1 hpart]
    exact (List.suffix_append [first, second, sign] value).isInfix.map _
  | @assignment first sign _ value =>
    rw [List.mem_singleton.1 hpart]
    exact (List.suffix_append [first, sign] value).isInfix.map _
  | @binary first sign left right =>
    simp only [Shape.parts, List.mem_cons, List.not_mem_nil, or_false] at hpart
    rcases hpart with rfl | rfl
    · exact (List.prefix_append part (sign :: right)).isInfix.map _
    · exact ((List.suffix_cons sign part).trans (List.suffix_append left _)).isInfix.map _
  | @group first last inner =>
    rw [List.mem_singleton.1 hpart]
    exact (List.infix_append [first] inner [last]).map _
  | @indexed first bracket last _ index =>
    rw [List.mem_singleton.1 hpart]
    exact (List.infix_append [first, bracket] index [last]).map _
  | @call first bracket last _ inner =>
    exact (Token.isInfix_of_mem_arguments hpart).trans
      ((List.infix_append [first, bracket] inner [last]).map _)
  | fallback | declaration | unplaced | spread | path | literal | name => cases hpart

/-! ### Legible expressions -/

namespace Expr

theorem grouped_branchOf (kind : Branch) (mark : Mark) (subject : Expr) :
    (Shape.branchOf kind mark subject).grouped = Shape.branchOf kind mark subject.grouped := by
  cases kind <;> rfl

theorem grouped_fallbackOf (kind : Fallback) (mark : Mark) :
    (Shape.fallbackOf kind mark).grouped = Shape.fallbackOf kind mark := by
  cases kind <;> rfl

end Expr

namespace Grammar

variable {line : Line} {tokens : List Token} {next after : Nat} {result : Expr}

/-- What is said of an expression and the tokens that it was read from. -/
structure ReadsLegibly (tokens : List Token) (result : Expr) : Prop where
  legible : result.grouped.Legible
  /-- Whatever may follow an open statement, it is recognized. -/
  statement : result.isOpen = true → ∀ rest, ¬Rule.NoStatement (tokens ++ rest)
  /-- A negative number has its sign in the first token. -/
  negative : result.isNegative = true → ∃ token ∈ tokens.head?, token.kind.isNegative = true

theorem ReadsLegibly.of_statement (hlegible : result.grouped.Legible)
    (hstatement : ∀ rest, ¬Rule.NoStatement (tokens ++ rest)) (hsign : result.isNegative = false) :
    ReadsLegibly tokens result :=
  ⟨hlegible, fun _ => hstatement, fun h => absurd (hsign.symm.trans h) Bool.false_ne_true⟩

theorem ReadsLegibly.of_closed (hlegible : result.grouped.Legible) (hclosed : result.isOpen = false)
    (hsign : result.isNegative = false) : ReadsLegibly tokens result :=
  ⟨hlegible, fun h => absurd (hclosed.symm.trans h) Bool.false_ne_true,
    fun h => absurd (hsign.symm.trans h) Bool.false_ne_true⟩

/-- Tokens of a scanned line, and parts of these. -/
structure IsScanned (tokens : List Token) : Prop where
  proper : ∀ token ∈ tokens, token.IsProper
  signed : TokenKind.Signed (tokens.map Token.kind)

theorem IsScanned.part {grammar : Grammar} {shape : Shape}
    (hshape : grammar.recognize? tokens = some shape) (h : IsScanned tokens) :
    ∀ part ∈ shape.parts, IsScanned part := by
  intro part hpart
  have hfound := found_of_recognize? hshape
  exact ⟨fun token htoken => h.proper token (hfound.subset_of_mem_parts hpart htoken),
    List.IsChain.infix h.signed (hfound.isInfix_of_mem_parts hpart)⟩

/-- After a keyword no number has a sign. -/
theorem isNegative_subject {kind : Branch} {first : Token} {subject : List Token} {decision : Expr}
    (hscanned : IsScanned (first :: subject)) (hfirst : first.isKeyword kind.keyword = true)
    (h : ReadsLegibly subject decision) : decision.isNegative = false := by
  rw [← Bool.not_eq_true]
  intro hnegative
  obtain ⟨token, htoken, hsign⟩ := h.negative hnegative
  obtain ⟨rest, rfl⟩ := List.head?_eq_some_iff.1 htoken
  have hsigned := hscanned.signed
  rw [List.map_cons, List.map_cons, TokenKind.Signed, List.isChain_cons_cons] at hsigned
  have hallows := hsigned.1 hsign
  rw [Token.kind_of_isKeyword hfirst] at hallows
  cases hallows

theorem isTarget_of_target? {first : Token} {target : Target} (mark : Mark)
    (hproper : first.IsProper) (h : Rule.target? first = some target) :
    (Shape.targetOf target mark).grouped.IsTarget := by
  unfold Rule.target? at h
  split at h
  · next parts hparts =>
    cases h
    exact .path (hproper.members_ofParts hparts)
  · obtain ⟨name, hname, rfl⟩ := Option.map_eq_some_iff.1 h
    exact .name (Token.name?_eq_some_iff.1 hname).2

/-- What has been read, with the brackets of its text, can be read from its own tokens. -/
theorem legible_of_read (hscanned : IsScanned tokens)
    (h : (standard.read line tokens).Gives next result after) : ReadsLegibly tokens result := by
  refine read_induction_of_parts IsScanned
    (motive := fun tokens _ result _ => ReadsLegibly tokens result) IsScanned.part ?_ hscanned h
  intro tokens next result after hscanned hbuilds
  cases hbuilds with
  | @branch kind _ _ _ _ hshape hsubject =>
    cases found_of_recognize? hshape with
    | branch hfirst =>
      have hsign := isNegative_subject hscanned hfirst hsubject
      refine .of_statement ?_ (fun rest => Rule.not_noStatement_branch hfirst)
        (by cases kind <;> rfl)
      rw [Expr.grouped_branchOf]
      exact .branch (by rwa [Expr.isNegative_grouped]) hsubject.legible
  | @fallback kind _ hshape =>
    cases found_of_recognize? hshape with
    | fallback hfirst =>
      refine .of_statement ?_ (fun rest => Rule.not_noStatement_fallback hfirst)
        (by cases kind <;> rfl)
      rw [Expr.grouped_fallbackOf]
      exact .fallback
  | spreadAssignment hshape hinvoked =>
    cases found_of_recognize? hshape with
    | spreadAssignment hfirst hsign =>
      refine .of_statement ?_ (fun rest => Rule.not_noStatement_spreadAssignment hfirst hsign) rfl
      obtain ⟨hfunction, hobject, htable, harguments⟩ := hinvoked.legible.arguments
      exact .spreadAssign hfunction hobject htable harguments
  | declaration hshape =>
    cases found_of_recognize? hshape with
    | declaration htype hname =>
      refine .of_closed ?_ rfl rfl
      exact .declare (WrittenType.isLegible_of_ofToken? (hscanned.proper _ (by simp)) htype)
        (Token.name?_eq_some_iff.1 hname).2 (by rintro _ ⟨⟩)
  | declarationWith hshape hvalue =>
    cases found_of_recognize? hshape with
    | declarationWith htype hname hsign =>
      refine .of_statement ?_ (fun rest => Rule.not_noStatement_declaration htype hname hsign) rfl
      refine .declare (WrittenType.isLegible_of_ofToken? (hscanned.proper _ (by simp)) htype)
        (Token.name?_eq_some_iff.1 hname).2 ?_
      rintro _ ⟨⟩
      exact hvalue.legible
  | assignment hshape hvalue =>
    cases found_of_recognize? hshape with
    | assignment htarget hsign =>
      refine .of_statement ?_ (fun rest => Rule.not_noStatement_assignment htarget hsign) rfl
      exact .assign (isTarget_of_target? _ (hscanned.proper _ (by simp)) htarget) hvalue.legible
  | @binary _ _ _ _ _ left _ _ _ hshape hleft hright =>
    have hstatement := Rule.noStatement_of_recognize? hshape
    have hfound := found_of_recognize? hshape
    have hoperator := hfound.sign_of_binary.2
    have hclosed : left.isOpen = false := by
      rw [← Bool.not_eq_true]
      intro hopen
      cases hfound
      exact hleft.statement hopen _ hstatement
    exact .of_closed
      (.combined hoperator (by rwa [Expr.isOpen_grouped]) hleft.legible hright.legible) rfl rfl
  | @group _ _ inner _ _ hinner =>
    refine .of_closed ?_ rfl rfl
    rw [Expr.grouped]
    split
    · exact hinner.legible
    · exact .group hinner.legible
  | indexed hshape hindex =>
    cases found_of_recognize? hshape with
    | indexed htable hbracket hclose =>
      exact .of_closed (.indexed (Token.name?_eq_some_iff.1 htable).2 hindex.legible) rfl rfl
  | make hshape hfunction harguments htype =>
    refine .of_closed (.make (Shape.isLegible_of_typePath? (fun token htoken => ?_) htype)) rfl rfl
    exact hscanned.proper token
      ((found_of_recognize? hshape).subset_of_mem_parts (by simp [Shape.parts, harguments]) htoken)
  | extract hshape hfunction harguments hobject =>
    exact .of_closed (.extract hobject.legible) rfl rfl
  | @lookUp _ _ _ _ _ _ _ pair? _ _ _ discriminator _ _ _ _ _ _ _ _ _ hpair hresult _ htable
      hdiscriminator hvalue hdiscriminatorColumn _ hresultColumn =>
    have hlegible : ∀ part ∈ discriminator.toList, part.grouped.Legible :=
      hdiscriminator.forall_mem fun hpart => hpart.legible
    have hpairColumn := congrArg Option.isSome hdiscriminatorColumn
    have hresult' := congrArg Option.isNone hresultColumn
    rw [Option.isSome_map, Option.isSome_map, hpair] at hpairColumn
    rw [Option.isNone_map, Option.isNone_map, hresult] at hresult'
    refine .of_closed ?_ rfl rfl
    rw [Expr.grouped, Expr.grouped?_eq]
    refine .lookUp (Token.name?_eq_some_iff.1 htable).2 ?_ hpairColumn.symm hresult'.symm ?_
      hvalue.legible
    · have hlength := hdiscriminator.length_eq
      rw [Option.isSome_map, ← hpair]
      cases pair? <;> cases discriminator <;> first | rfl | cases hlength
    · rintro _ hgrouped
      obtain ⟨part, hpart, rfl⟩ := Option.map_eq_some_iff.1 hgrouped
      exact hlegible part (Option.mem_toList.2 hpart)
  | call hshape hobject htable harguments =>
    cases found_of_recognize? hshape with
    | call hfunction =>
      refine .of_closed ?_ rfl rfl
      rw [Expr.grouped, Expr.allGrouped_eq]
      exact .call (Token.name?_eq_some_iff.1 hfunction).2 hobject htable
        (List.forall_mem_map.2 (harguments.forall_mem fun hargument => hargument.legible))
  | spread => exact .of_closed .spread rfl rfl
  | path hshape =>
    cases found_of_recognize? hshape with
    | path hparts =>
      exact .of_closed (.path ((hscanned.proper _ (by simp)).members_ofParts hparts)) rfl rfl
  | literal hshape =>
    cases found_of_recognize? hshape with
    | literal hvalue =>
      refine ⟨.literal, by rintro ⟨⟩, fun hnegative => ⟨_, rfl, ?_⟩⟩
      rwa [← Token.toKind_ofToken? hvalue]
  | name hshape =>
    cases found_of_recognize? hshape with
    | name hword => exact .of_closed (.name (Token.name?_eq_some_iff.1 hword).2) rfl rfl

theorem forall_kinds_grouped {holds : TokenKind → Prop} {grammar : Grammar}
    (hoperator : ∀ sign, holds (.operator sign)) (htokens : ∀ token ∈ tokens, holds token.kind)
    (hproper : ∀ token ∈ tokens, token.IsProper)
    (h : (grammar.read line tokens).Gives next result after) :
    ∀ kind ∈ result.grouped.kinds, holds kind := by
  have hkinds : ∀ kind ∈ result.kinds, holds kind :=
    TokenKind.forall_of_alike (alike_of_read hproper h) hoperator (List.forall_mem_map.2 htokens)
  intro kind hkind
  by_cases hsign : ∃ sign, kind = .operator sign
  · obtain ⟨sign, rfl⟩ := hsign
    exact hoperator sign
  · exact hkinds kind (Expr.mem_kinds_of_mem_grouped (not_exists.1 hsign) hkind)

/-- The text of an expression that was read from a line is a line, from which the same expression is
read but for marks, places and groups, with the same text. The numbers of the line are those that
their texts are read as. -/
theorem exists_gives_of_text {file text : String} {index : Nat}
    (hread : Line.read file index text = .ok line)
    (hnumbers : ∀ token ∈ line.tokens, ∀ value, token.kind = .number value → value.IsWritten)
    (h : (standard.readLine line).Gives next result after) (file' : String) (index' next' : Nat) :
    ∃ line' result' after', Line.read file' index' result.text = .ok line' ∧
      (standard.readLine line').Gives next' result' after' ∧ result'.erased = result.erased ∧
      result'.text = result.text := by
  obtain ⟨scanned, hscan, hstart, hcomment⟩ := Line.exists_scan_of_read hread
  have hproper (token : Token) (htoken : token ∈ line.tokens) : token.IsProper :=
    Token.isProper_of_scan hscan token (hstart.subset htoken)
  have hlegible := (legible_of_read ⟨hproper, Line.signed_of_read hread⟩ h).legible
  have hrescans := forall_kinds_grouped TokenKind.rescans_operator
    (Line.rescans_of_read hread hnumbers) hproper h
  have hcomments : ∀ kind ∈ result.grouped.kinds, kind.isComment = false :=
    forall_kinds_grouped (fun _ => rfl) hcomment hproper h
  obtain ⟨tokens, hscan', hkinds⟩ :=
    Token.exists_scanFrom_of_spells (hlegible.isSpelled hrescans none fun _ => rfl) 1
  rw [Expr.text_grouped] at hscan'
  rw [← hkinds, List.forall_mem_map] at hcomments
  obtain ⟨line', hread', rfl⟩ := Line.exists_read_of_scan hscan' hcomments
  have hrereads : Rereads line' line'.tokens result.grouped := rereads_of_legible hlegible hkinds
  obtain ⟨result', after', hresult, herased, htext, _⟩ := hrereads next'
  exact ⟨line', result', after', hread', hresult, herased.trans result.erased_grouped,
    htext.trans result.text_grouped⟩

/-- The line `x = f(-2) * (a + b)`. -/
def signedLine : Line :=
  .ofTokens "main" 0 "x = f(-2) * (a + b)" <|
    [⟨.word "x", 1⟩, ⟨.operator .assignment, 3⟩, ⟨.word "f", 5⟩, ⟨.operator .openParenthesis, 6⟩,
      ⟨.number (.ofDecimal ['-', '2']), 7⟩, ⟨.operator .closeParenthesis, 9⟩,
      ⟨.operator .multiplication, 11⟩, ⟨.operator .openParenthesis, 13⟩, ⟨.word "a", 14⟩,
      ⟨.operator .addition, 16⟩, ⟨.word "b", 18⟩, ⟨.operator .closeParenthesis, 19⟩]

theorem exists_gives_of_text_signedLine :
    Line.read "main" 0 "x = f(-2) * (a + b)" = .ok signedLine ∧
      (∀ token ∈ signedLine.tokens, ∀ value, token.kind = .number value → value.IsWritten) ∧
      ∃ result after, (standard.readLine signedLine).Gives 0 result after ∧
        ∃ line' result' after', Line.read "again" 1 result.text = .ok line' ∧
          (standard.readLine line').Gives 7 result' after' ∧ result'.erased = result.erased ∧
          result'.text = result.text := by
  have hscan : Token.scan "x = f(-2) * (a + b)" = .ok signedLine.tokens := by decide +kernel
  have hread : Line.read "main" 0 "x = f(-2) * (a + b)" = .ok signedLine := by
    rw [Line.read, hscan]
    rfl
  have hwritten : (Number.ofDecimal ['-', '2']).IsWritten := by decide +kernel
  have hnumbers : ∀ token ∈ signedLine.tokens, ∀ value, token.kind = .number value →
      value.IsWritten := by
    simp [signedLine, Line.ofTokens, Line.isComment, hwritten]
  have hgives : ((standard.readLine signedLine).run.run 0).1.isOk = true := by decide +kernel
  obtain ⟨result, after, h⟩ := Numbered.exists_gives hgives
  exact ⟨hread, hnumbers, result, after, h, exists_gives_of_text hread hnumbers h "again" 1 7⟩

end Grammar

end DecisionLang
