import DecisionLang.Proofs.Grammar.Reread.Calls

/-!
# Reading legible expressions

The tokens of a legible expression are read as this expression, whatever its marks:
`Grammar.rereads_of_legible`.
-/

namespace DecisionLang

namespace Grammar

variable {line : Line} {tokens rest : List Token} {mark : Mark} {inside : Expr}

section NoStatement

variable {sign : Token} {operator : Operator} {kind : TokenKind} {kinds : List TokenKind}

theorem noStatement_of_single (hopens : ∀ token : Token, token.kind = kind → token.OpensNothing)
    (hsign : sign.operator? = some operator) (hassignment : operator ≠ .assignment)
    (h : tokens.map Token.kind = [kind]) : Rule.NoStatement (tokens ++ sign :: rest) := by
  obtain ⟨token, rfl, hkind⟩ := List.map_eq_singleton_iff.1 h
  exact Rule.noStatement_of_second (hopens token hkind) hsign hassignment

theorem noStatement_of_group
    (h : tokens.map Token.kind = .operator .openParenthesis :: kinds) :
    Rule.NoStatement (tokens ++ rest) := by
  obtain ⟨first, others, rfl, hfirst, -⟩ := List.map_eq_cons_iff.1 h
  exact Rule.noStatement_of_operator?
    (Token.isOperator_iff.1 (Token.isOperator_iff_kind.2 hfirst)) (by decide)

/-- The name of a function or table and the bracket after it. -/
theorem noStatement_of_bracket {name : String} (hname : IsName name)
    (hbracket : operator ≠ .assignment)
    (h : tokens.map Token.kind = .word name :: .operator operator :: kinds) :
    Rule.NoStatement (tokens ++ rest) := by
  obtain ⟨first, others, rfl, hfirst, hothers⟩ := List.map_eq_cons_iff.1 h
  obtain ⟨second, others, rfl, hsecond, -⟩ := List.map_eq_cons_iff.1 hothers
  exact Rule.noStatement_of_second
    (Token.opensNothing_of_name? (Token.name?_eq_some_iff.2 ⟨hfirst, hname⟩))
    (Token.isOperator_iff.1 (Token.isOperator_iff_kind.2 hsecond)) hbracket

/-- No statement takes in a binary expression whose left operand is not one that is open. -/
theorem noStatement_of_legible {left : Expr} (hlegible : left.Legible)
    (hclosed : left.isOpen = false) (hsign : sign.isOperator operator = true)
    (hoperator : operator.isBinary = true) (h : tokens.map Token.kind = left.kinds) :
    Rule.NoStatement (tokens ++ sign :: rest) := by
  have hassignment : operator ≠ .assignment := by
    rintro rfl
    cases hoperator
  have hafter := Token.isOperator_iff.1 hsign
  have hword {token : Token} {kind : TokenKind} (hnone : ∀ word, kind ≠ .word word)
      (hkind : token.kind = kind) : token.OpensNothing := by
    refine Token.opensNothing_of_word? ?_
    rw [Token.word?, hkind]
    split
    · next word => exact absurd rfl (hnone word)
    · rfl
  cases hlegible with
  | @literal _ value =>
    have hnone (word : String) : value.toKind ≠ .word word := by
      cases value <;> rintro ⟨⟩
    exact noStatement_of_single (fun _ => hword hnone) hafter hassignment h
  | name hword =>
    exact noStatement_of_single (fun token hkind =>
      Token.opensNothing_of_name? (Token.name?_eq_some_iff.2 ⟨hkind, hword⟩)) hafter hassignment h
  | path => exact noStatement_of_single (fun _ => hword (by simp)) hafter hassignment h
  | spread => exact noStatement_of_single (fun _ => hword (by simp)) hafter hassignment h
  | combined => exact noStatement_of_group h
  | group => exact noStatement_of_group h
  | @declare _ _ _ default htype hdeclared _ =>
    cases default with
    | some => cases hclosed
    | none =>
      obtain ⟨first, others, rfl, hfirst, hothers⟩ := List.map_eq_cons_iff.1 h
      obtain ⟨second, rfl, hsecond⟩ := List.map_eq_singleton_iff.1 hothers
      exact Rule.noStatement_of_third (Token.opensNothing_of_ofToken? (htype first hfirst))
        (by simp [Token.operator?, hsecond]) hafter hassignment
  | indexed htable => exact noStatement_of_bracket htable (by decide) h
  | @make _ making => exact noStatement_of_bracket (by cases making <;> decide) (by decide) h
  | extract => exact noStatement_of_bracket (by decide) (by decide) h
  | @lookUp _ function => exact noStatement_of_bracket (by cases function <;> decide) (by decide) h
  | call hfunction => exact noStatement_of_bracket hfunction (by decide) h
  | assign => cases hclosed
  | @branch kind => cases kind <;> cases hclosed
  | @fallback kind => cases kind <;> cases hclosed
  | spreadAssign => cases hclosed

end NoStatement

theorem ne_nil_of_kinds {whole : Expr} (h : tokens.map Token.kind = whole.kinds) :
    tokens ≠ [] := by
  rintro rfl
  exact whole.kinds_ne_nil h.symm

theorem rereads_group_of_kinds (hnested : TokenKind.Nested inside.kinds)
    (h : tokens.map Token.kind = (Expr.group mark inside).kinds)
    (hrereads : ∀ inner : List Token, inner.map Token.kind = inside.kinds →
      Rereads line inner inside) :
    Rereads line tokens (.group mark inside) := by
  have hsealed : TokenKind.Sealed (tokens.map Token.kind) := h ▸ hnested.sealed rfl
  rw [Expr.kinds, List.cons_append] at h
  obtain ⟨first, others, rfl, hfirst, hothers⟩ := List.map_eq_cons_iff.1 h
  obtain ⟨inner, last, rfl, hinner, hinnerNested, hlast⟩ :=
    Token.exists_enclosed hnested rfl hothers
  exact rereads_group (Token.isOperator_iff_kind.2 hfirst) (ne_nil_of_kinds hinner) hinnerNested
    hlast hsealed (hrereads inner hinner)

theorem exists_target {target : Expr} (h : target.IsTarget)
    (hkinds : tokens.map Token.kind = target.kinds) :
    ∃ first target', tokens = [first] ∧ first.OpensNothing ∧
      Rule.target? first = some target' ∧ ∀ mark, (Shape.targetOf target' mark).Same target := by
  cases h with
  | @name _ word hword =>
    obtain ⟨first, rfl, hfirst⟩ := List.map_eq_singleton_iff.1 hkinds
    have hname := Token.name?_eq_some_iff.2 ⟨hfirst, hword⟩
    refine ⟨first, .name word, rfl, Token.opensNothing_of_name? hname, ?_, fun _ => ⟨rfl, rfl, rfl⟩⟩
    simp [Rule.target?, Token.path?, hfirst, hname]
  | @path _ names =>
    obtain ⟨first, rfl, hfirst⟩ := List.map_eq_singleton_iff.1 hkinds
    refine ⟨first, .path names, rfl, Token.opensNothing_of_word? (by simp [Token.word?, hfirst]), ?_,
      fun _ => ⟨rfl, rfl, rfl⟩⟩
    rw [Rule.target?, Token.path?, hfirst]
    rfl

/-- The tokens of a legible expression are read as the expression. -/
theorem rereads_of_legible {whole : Expr} (hlegible : whole.Legible)
    (h : tokens.map Token.kind = whole.kinds) : Rereads line tokens whole := by
  induction hlegible generalizing tokens with
  | literal =>
    obtain ⟨token, rfl, hkind⟩ := List.map_eq_singleton_iff.1 h
    exact rereads_singleton (fun mark => .literal mark _) (recognize?_literal hkind)
      (fun _ => rfl) fun _ => ⟨rfl, rfl, rfl⟩
  | name hword =>
    obtain ⟨token, rfl, hkind⟩ := List.map_eq_singleton_iff.1 h
    exact rereads_singleton (fun mark => .name mark _)
      (recognize?_name (Token.name?_eq_some_iff.2 ⟨hkind, hword⟩))
      (fun _ => rfl) fun _ => ⟨rfl, rfl, rfl⟩
  | path =>
    obtain ⟨token, rfl, hkind⟩ := List.map_eq_singleton_iff.1 h
    exact rereads_singleton (fun mark => .path mark _) (recognize?_path hkind)
      (fun _ => rfl) fun _ => ⟨rfl, rfl, rfl⟩
  | combined hoperator hclosed hleft hright ihleft ihright =>
    refine rereads_group_of_kinds (hleft.sealed.nested.append
      (hright.sealed.nested.binary hoperator)) h fun inner hinner => ?_
    obtain ⟨before, others, rfl, hbefore, hothers⟩ := List.map_eq_append_iff.1 hinner
    obtain ⟨sign, after, rfl, hsign, hafter⟩ := List.map_eq_cons_iff.1 hothers
    have hsign' := Token.isOperator_iff_kind.2 hsign
    exact rereads_binary (noStatement_of_legible hleft hclosed hsign' hoperator hbefore)
      (ne_nil_of_kinds hbefore) (ne_nil_of_kinds hafter) (hbefore ▸ hleft.sealed)
      (hafter ▸ hright.sealed) hsign' hoperator (ihleft hbefore) (ihright hafter)
  | group hinner ih =>
    exact rereads_group_of_kinds hinner.sealed.nested h fun _ => ih
  | assign htarget hvalue ih =>
    rw [Expr.kinds] at h
    obtain ⟨front, others, rfl, hfront, hothers⟩ := List.map_eq_append_iff.1 h
    obtain ⟨second, others, rfl, hsecond, hothers⟩ := List.map_eq_cons_iff.1 hothers
    obtain ⟨first, target', rfl, hopens, htarget', hsame⟩ := exists_target htarget hfront
    exact rereads_assign hopens htarget' hsame (Token.isOperator_iff_kind.2 hsecond)
      (ne_nil_of_kinds hothers) (ih hothers)
  | @declare _ type declared default htype hdeclared hdefault ih =>
    cases default with
    | none =>
      obtain ⟨first, others, rfl, hfirst, hothers⟩ := List.map_eq_cons_iff.1 h
      obtain ⟨second, rfl, hsecond⟩ := List.map_eq_singleton_iff.1 hothers
      exact rereads_declare (Token.opensNothing_of_ofToken? (htype first hfirst))
        (htype first hfirst) (Token.name?_eq_some_iff.2 ⟨hsecond, hdeclared⟩)
    | some value =>
      obtain ⟨first, others, rfl, hfirst, hothers⟩ := List.map_eq_cons_iff.1 h
      obtain ⟨second, others, rfl, hsecond, hothers⟩ := List.map_eq_cons_iff.1 hothers
      obtain ⟨third, others, rfl, hthird, hothers⟩ := List.map_eq_cons_iff.1 hothers
      exact rereads_declareWith (Token.opensNothing_of_ofToken? (htype first hfirst))
        (htype first hfirst) (Token.name?_eq_some_iff.2 ⟨hsecond, hdeclared⟩)
        (Token.isOperator_iff_kind.2 hthird) (ne_nil_of_kinds hothers) (ih value rfl hothers)
  | indexed htable hindex ih =>
    have hsealed := h ▸ (Expr.Legible.indexed htable hindex).sealed
    rw [Expr.kinds, List.cons_append, List.cons_append] at h
    obtain ⟨first, others, rfl, hfirst, hothers⟩ := List.map_eq_cons_iff.1 h
    obtain ⟨second, others, rfl, hsecond, hothers⟩ := List.map_eq_cons_iff.1 hothers
    obtain ⟨inner, last, rfl, hinner, hinnerNested, hlast⟩ :=
      Token.exists_enclosed hindex.sealed.nested rfl hothers
    exact rereads_indexed (Token.name?_eq_some_iff.2 ⟨hfirst, htable⟩)
      (Token.isOperator_iff_kind.2 hsecond) (ne_nil_of_kinds hinner) hinnerNested hlast hsealed
      (ih hinner)
  | make htype => exact rereads_make htype h
  | extract hobject ih => exact rereads_extract hobject.sealed h fun _ => ih
  | lookUp htable hpair hpairColumn hresult hdiscriminator hvalue ihdiscriminator ih =>
    exact rereads_lookUp htable hpair hpairColumn hresult
      (fun part hpart => (hdiscriminator part hpart).sealed) hvalue.sealed h
      (fun part hpart _ => ihdiscriminator part hpart) fun _ => ih
  | call hfunction hobject htable harguments ih =>
    intro next
    obtain ⟨mark', results, after, hread, hsame⟩ := rereads_call hfunction hobject htable
      (fun argument hargument => (harguments argument hargument).sealed) h
      (fun argument hargument _ => ih argument hargument) next
    exact ⟨_, after, hread, hsame⟩
  | branch _ hsubject ih =>
    rw [Shape.kinds_branchOf] at h
    obtain ⟨first, others, rfl, hfirst, hothers⟩ := List.map_eq_cons_iff.1 h
    refine rereads_branch hfirst ?_ (ih hothers)
    rintro rfl
    exact Expr.kinds_ne_nil _ hothers.symm
  | fallback =>
    rw [Shape.kinds_fallbackOf] at h
    obtain ⟨first, rfl, hfirst⟩ := List.map_eq_singleton_iff.1 h
    exact rereads_fallback hfirst
  | spread =>
    obtain ⟨token, rfl, hkind⟩ := List.map_eq_singleton_iff.1 h
    exact rereads_singleton .spread (recognize?_spread (Token.isOperator_iff_kind.2 hkind))
      (fun _ => rfl) fun _ => ⟨rfl, rfl, rfl⟩
  | spreadAssign hfunction hobject htable harguments ih =>
    rw [Expr.kinds] at h
    obtain ⟨first, others, rfl, hfirst, hothers⟩ := List.map_eq_cons_iff.1 h
    obtain ⟨second, others, rfl, hsecond, hothers⟩ := List.map_eq_cons_iff.1 hothers
    exact rereads_spreadAssign (Token.isOperator_iff_kind.2 hfirst)
      (Token.isOperator_iff_kind.2 hsecond) (ne_nil_of_kinds hothers)
      (rereads_call hfunction hobject htable
        (fun argument hargument => (harguments argument hargument).sealed) hothers
        fun argument hargument _ => ih argument hargument)

end Grammar

end DecisionLang