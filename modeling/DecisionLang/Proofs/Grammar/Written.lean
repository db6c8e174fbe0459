import DecisionLang.Proofs.Grammar.Recognized
import DecisionLang.Proofs.Reading.Expression
import DecisionLang.Proofs.Token.Scanned

/-!
# Expressions written back

`Expr.kinds` writes an expression as tokens: operators between their operands, groups and calls with
their brackets, arguments in the order they are read, blocks without the lines below them. Here are
the tokens that each rule decides by, as they are written back, and what the parts of a nested line
inherit from it; expressions as a whole follow in `DecisionLang.Proofs.Grammar.Brackets`.
-/

namespace DecisionLang

/-! ### Writing -/

def Keyword.kind (keyword : Keyword) : TokenKind := .word keyword.spelling

namespace NamePath

/-- A single name is a word; names joined by points are one token too. -/
def kind (path : NamePath) : TokenKind :=
  match path.members with
  | [] => .word path.root
  | _ :: _ => .path path.parts

end NamePath

def WrittenType.kind : WrittenType → TokenKind
  | primitive type => .word type.spelling
  | implicit => Keyword.var.kind
  | named path => path.kind

def ColumnName.kind (name : ColumnName) : TokenKind := .path [name.table, name.column]

namespace Expr

/-- A call, from the tokens of its arguments. -/
def callKinds (function : String) (arguments : List (List TokenKind)) : List TokenKind :=
  .word function :: .operator .openParenthesis ::
    [.operator .argumentSeparator].intercalate arguments ++ [.operator .closeParenthesis]

mutual

def kinds : Expr → List TokenKind
  | literal _ value => [value.toKind]
  | name _ word => [.word word]
  | path _ names => [.path names.parts]
  | binary _ left operator right => left.kinds ++ .operator operator :: right.kinds
  | assign _ target value => target.kinds ++ .operator .assignment :: value.kinds
  | declare _ type declared default =>
    match kinds? default with
    | some value => type.kind :: .word declared :: .operator .assignment :: value
    | none => [type.kind, .word declared]
  | group _ inner =>
    .operator .openParenthesis :: inner.kinds ++ [.operator .closeParenthesis]
  | indexed _ table index =>
    .word table :: .operator .openBracket :: index.kinds ++ [.operator .closeBracket]
  | make _ making type _ => callKinds making.function.spelling [[type.kind]]
  | extract _ object => callKinds ObjectFunction.extract.spelling [object.kinds]
  | lookUp _ function table _ discriminator value discriminatorColumn searchColumn resultColumn =>
    callKinds function.spelling
      ([.word table] :: (kinds? discriminator).toList ++ value.kinds ::
        (discriminatorColumn.map fun column => [column.kind]).toList ++ [searchColumn.kind] ::
        (resultColumn.map fun column => [column.kind]).toList)
  | call _ function arguments => callKinds function (allKinds arguments)
  | ifThen _ condition _ _ => Keyword.ifBranch.kind :: condition.kinds
  | elseIf _ condition _ => Keyword.elseIfBranch.kind :: condition.kinds
  | otherwise .. => [Keyword.elseBranch.kind]
  | switch _ subject _ => Keyword.switch.kind :: subject.kinds
  | case _ value _ =>
    match kinds? value with
    | some value => Keyword.case.kind :: value
    | none => [Keyword.default.kind]
  | spread _ => [.operator .spread]
  | spreadAssign _ invoked => .operator .spread :: .operator .assignment :: invoked.kinds

def allKinds : List Expr → List (List TokenKind)
  | [] => []
  | expression :: rest => expression.kinds :: allKinds rest

def kinds? : Option Expr → Option (List TokenKind)
  | none => none
  | some expression => some expression.kinds

end

@[simp] theorem kinds?_eq (expression? : Option Expr) :
    kinds? expression? = expression?.map kinds := by
  cases expression? <;> rfl

@[simp] theorem allKinds_eq (expressions : List Expr) :
    allKinds expressions = expressions.map kinds := by
  induction expressions with
  | nil => rfl
  | cons expression rest ih => rw [allKinds, ih, List.map_cons]

end Expr

theorem ObjectFunction.spelling_of_ofSpelling? {text : String} {function : ObjectFunction}
    (h : ofSpelling? text = some function) : function.spelling = text := by
  have hspelling := List.find?_some h
  exact beq_iff_eq.1 hspelling

theorem TableFunction.spelling_of_ofSpelling? {text : String} {function : TableFunction}
    (h : ofSpelling? text = some function) : function.spelling = text := by
  have hspelling := List.find?_some h
  exact beq_iff_eq.1 hspelling

/-! ### Single tokens -/

namespace Token

variable {token : Token}

theorem kind_of_word? {word : String} (h : token.word? = some word) : token.kind = .word word := by
  unfold word? at h
  split at h
  · next hkind => simp_all
  · cases h

theorem kind_of_name? {name : String} (h : token.name? = some name) : token.kind = .word name :=
  kind_of_word? (Option.filter_eq_some_iff.1 h).1

theorem kind_of_path? {parts : List String} (h : token.path? = some parts) :
    token.kind = .path parts := by
  unfold path? at h
  split at h
  · next hkind => simp_all
  · cases h

theorem kind_of_isKeyword {keyword : Keyword} (h : token.isKeyword keyword = true) :
    token.kind = keyword.kind := by
  obtain ⟨word, hword, hkeyword⟩ := Option.bind_eq_some_iff.1 (beq_iff_eq.1 h)
  have hspelling := List.find?_some hkeyword
  rw [kind_of_word? hword, Keyword.kind, beq_iff_eq.1 hspelling]

theorem IsProper.two_le_length {parts : List String} (hproper : token.IsProper)
    (h : token.path? = some parts) : 2 ≤ parts.length := by
  rwa [IsProper, kind_of_path? h] at hproper

theorem IsProper.kind_ofParts {parts : List String} (hproper : token.IsProper)
    (h : token.path? = some parts) : (NamePath.ofParts parts).kind = token.kind := by
  rw [kind_of_path? h]
  match parts, hproper.two_le_length h with
  | _ :: _ :: _, _ => rfl

theorem IsProper.parts_ofParts {parts : List String} (hproper : token.IsProper)
    (h : token.path? = some parts) : (NamePath.ofParts parts).parts = parts := by
  apply NamePath.parts_ofParts
  rintro rfl
  simpa using hproper.two_le_length h

theorem IsProper.kind_ofToken? {type : WrittenType} (hproper : token.IsProper)
    (h : WrittenType.ofToken? token = some type) : type.kind = token.kind := by
  unfold WrittenType.ofToken? at h
  split at h
  · next word hkind =>
    split at h
    · next hvar =>
      cases h
      rw [hkind, hvar]
      rfl
    · split at h
      · next type hprimitive =>
        cases h
        have hspelling := List.find?_some hprimitive
        rw [hkind, WrittenType.kind, beq_iff_eq.1 hspelling]
      · obtain ⟨name, hname, rfl⟩ := Option.map_eq_some_iff.1 h
        rw [kind_of_name? hname]
        rfl
  · next parts hkind =>
    cases h
    exact hproper.kind_ofParts (by rw [path?, hkind])
  · cases h

theorem toKind_ofToken? {value : Literal} (h : Literal.ofToken? token = some value) :
    value.toKind = token.kind := by
  unfold Literal.ofToken? at h
  split at h <;> cases h <;> simp_all [Literal.toKind]

theorem operator?_eq_none_of_isKeyword {keyword : Keyword} (h : token.isKeyword keyword = true) :
    token.operator? = none := by
  simp [operator?, kind_of_isKeyword h, Keyword.kind]

theorem operator?_eq_none_of_name? {name : String} (h : token.name? = some name) :
    token.operator? = none := by
  simp [operator?, kind_of_name? h]

theorem operator?_eq_none_of_ofToken? {type : WrittenType}
    (h : WrittenType.ofToken? token = some type) : token.operator? = none := by
  unfold WrittenType.ofToken? at h
  split at h <;> simp_all [operator?]

theorem operator?_eq_none_of_target? {target : Target} (h : Rule.target? token = some target) :
    token.operator? = none := by
  unfold Rule.target? at h
  split at h
  · next parts hparts => simp [operator?, kind_of_path? hparts]
  · obtain ⟨name, hname, _⟩ := Option.map_eq_some_iff.1 h
    exact operator?_eq_none_of_name? hname

end Token

namespace Shape

variable {token : Token}

theorem kinds_typePath? {argument : List Token} {type : NamePath}
    (hproper : ∀ token ∈ argument, token.IsProper)
    (h : typePath? argument = some (token, type)) : [type.kind] = argument.map Token.kind := by
  unfold typePath? at h
  split at h
  · next single =>
    split at h
    · next parts hparts =>
      cases h
      rw [(hproper token (by simp)).kind_ofParts hparts]
      rfl
    · obtain ⟨name, hname, h⟩ := Option.map_eq_some_iff.1 h
      cases h
      simp [Token.kind_of_name? hname, NamePath.ofName, NamePath.kind]
  · cases h

theorem kinds_columnName {line : Line} {usage : String} {argument : List Token}
    {column : ColumnName} (h : columnName line usage argument = pure column) :
    [column.kind] = argument.map Token.kind := by
  have hgives : (columnName line usage argument).Gives 0 column 0 := by simp [h]
  unfold columnName at hgives
  split at hgives
  · simp at hgives
  · split at hgives
    · next table name hpath =>
      obtain ⟨rfl, _⟩ := Numbered.gives_pure.1 hgives
      simp [Token.kind_of_path? hpath, ColumnName.kind]
    · simp at hgives

theorem kinds_columnName? (argument? : Option (List Token)) {line : Line} {usage : String}
    {column? : Option ColumnName}
    (h : argument?.map (columnName line usage) = column?.map pure) :
    column?.map (fun column => [column.kind]) = argument?.map (List.map Token.kind) := by
  cases argument? with
  | none =>
    cases column? with
    | none => rfl
    | some column => cases h
  | some argument =>
    cases column? with
    | none => cases h
    | some column => exact congrArg some (kinds_columnName (Option.some.inj h))

theorem kinds_targetOf {target : Target} (mark : Mark) (hproper : token.IsProper)
    (h : Rule.target? token = some target) : (targetOf target mark).kinds = [token.kind] := by
  unfold Rule.target? at h
  split at h
  · next parts hparts =>
    cases h
    rw [targetOf, Expr.kinds, hproper.parts_ofParts hparts, Token.kind_of_path? hparts]
  · obtain ⟨name, hname, rfl⟩ := Option.map_eq_some_iff.1 h
    rw [targetOf, Expr.kinds, Token.kind_of_name? hname]

theorem kinds_branchOf (kind : Branch) (mark : Mark) (subject : Expr) :
    (branchOf kind mark subject).kinds = kind.keyword.kind :: subject.kinds := by
  cases kind <;> rfl

theorem kinds_fallbackOf (kind : Fallback) (mark : Mark) :
    (fallbackOf kind mark).kinds = [kind.keyword.kind] := by
  cases kind <;> rfl

end Shape

/-! ### Parts of nested tokens -/

namespace Shape.Found

variable {tiers : Tiers} {tokens part : List Token} {shape : Shape}

theorem subset_of_mem_parts (h : shape.Found tiers tokens) (hpart : part ∈ shape.parts) :
    part ⊆ tokens := by
  cases h with
  | branch | spreadAssignment | declarationWith | assignment | group | indexed =>
    simp only [Shape.parts, List.mem_singleton] at hpart
    subst hpart
    intro token htoken
    simp [htoken]
  | binary =>
    simp only [Shape.parts, List.mem_cons, List.not_mem_nil, or_false] at hpart
    intro token htoken
    rcases hpart with rfl | rfl <;> simp [htoken]
  | call =>
    intro token htoken
    simp [Token.subset_of_mem_arguments hpart htoken]
  | fallback | declaration | unplaced | spread | path | literal | name => cases hpart

/-- The sign of a binary expression is its operator, a binary one, and both sides are nested. -/
theorem sides_of_binary {first sign : Token} {left right : List Token} {operator : Operator}
    (h : (Shape.binary first left sign operator right).Found tiers tokens)
    (hnested : Token.Nested tokens) :
    sign.isOperator operator = true ∧ operator.isBinary = true ∧ Token.Nested left ∧
      Token.Nested right := by
  cases h with
  | binary hcandidates hpoint =>
    obtain ⟨before, sign, after, htokens, hlength, hsign, hbinary, hbefore, hafter⟩ :=
      Token.exists_split_of_mem_outerOperators? hcandidates (Tiers.mem_of_splitPoint? hpoint)
        hnested
    obtain ⟨rfl, hright⟩ := List.append_inj htokens hlength.symm
    cases hright
    exact ⟨Token.isOperator_iff.2 hsign, hbinary, hbefore, hafter⟩

/-- Parts of nested tokens are nested. -/
theorem nested_of_mem_parts (h : shape.Found tiers tokens) (hnested : Token.Nested tokens)
    (hpart : part ∈ shape.parts) : Token.Nested part := by
  have htail {first : Token} {rest : List Token} (hfirst : first.operator? = none)
      (hnested : Token.Nested (first :: rest)) : Token.Nested rest := by
    obtain ⟨hopens, hcloses⟩ := Token.plain_of_operator?_eq_none hfirst
    exact (Token.nested_cons hopens hcloses).1 hnested
  have htail' {first : Token} {rest : List Token} {operator : Operator}
      (hfirst : first.isOperator operator = true) (hrole : operator.role ≠ .grouping)
      (hnested : Token.Nested (first :: rest)) : Token.Nested rest := by
    obtain ⟨hopens, hcloses⟩ := Token.plain_of_operator? (Token.isOperator_iff.1 hfirst) hrole
    exact (Token.nested_cons hopens hcloses).1 hnested
  have hfound := h
  cases h with
  | branch hfirst =>
    simp only [Shape.parts, List.mem_singleton] at hpart
    subst hpart
    exact htail (Token.operator?_eq_none_of_isKeyword hfirst) hnested
  | spreadAssignment hfirst hsign =>
    simp only [Shape.parts, List.mem_singleton] at hpart
    subst hpart
    exact htail' hsign (by decide) (htail' hfirst (by decide) hnested)
  | declarationWith htype hname hsign =>
    simp only [Shape.parts, List.mem_singleton] at hpart
    subst hpart
    have hrest := htail (Token.operator?_eq_none_of_ofToken? htype) hnested
    exact htail' hsign (by decide) (htail (Token.operator?_eq_none_of_name? hname) hrest)
  | assignment htarget hsign =>
    simp only [Shape.parts, List.mem_singleton] at hpart
    subst hpart
    exact htail' hsign (by decide) (htail (Token.operator?_eq_none_of_target? htarget) hnested)
  | binary =>
    obtain ⟨_, _, hleft, hright⟩ := hfound.sides_of_binary hnested
    simp only [Shape.parts, List.mem_cons, List.not_mem_nil, or_false] at hpart
    rcases hpart with rfl | rfl
    · exact hleft
    · exact hright
  | group hfirst hclose =>
    simp only [Shape.parts, List.mem_singleton] at hpart
    subst hpart
    exact (Token.nested_inside hfirst rfl hclose hnested).1
  | indexed htable hbracket hclose =>
    simp only [Shape.parts, List.mem_singleton] at hpart
    subst hpart
    have hrest := htail (Token.operator?_eq_none_of_name? htable) hnested
    exact (Token.nested_inside hbracket rfl hclose hrest).1
  | call hfunction hbracket hclose =>
    have hrest := htail (Token.operator?_eq_none_of_name? hfunction) hnested
    exact Token.nested_of_mem_arguments (Token.nested_inside hbracket rfl hclose hrest).1 hpart
  | fallback | declaration | unplaced | spread | path | literal | name => cases hpart

end Shape.Found

end DecisionLang
