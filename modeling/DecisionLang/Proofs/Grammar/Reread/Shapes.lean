import DecisionLang.Proofs.Grammar.Deciding
import DecisionLang.Proofs.Grammar.Legible

/-!
# Reading a shape again

An expression is read from some tokens, whatever its marks, if its parts are read from theirs
(`Grammar.Rereads`): one lemma for each shape other than calls.
-/

namespace DecisionLang

namespace Expr

/-- The same expression but for marks and places, and written alike. -/
structure Same (result whole : Expr) : Prop where
  erased : result.erased = whole.erased
  text : result.text = whole.text
  isBinary : result.isBinary = whole.isBinary

end Expr

open Numbered

namespace Shape

variable {line : Line} {first : Token} {next after : Nat}

theorem columnName_of_kind {token : Token} {column : ColumnName} (usage : String)
    (h : token.kind = column.kind) :
    columnName line usage [token] =
      pure { column with reference := line.tokenReference token } := by
  simp [columnName, Token.path?, h, ColumnName.kind]

theorem typePath?_of_kind {token : Token} {type : NamePath} (htype : type.IsLegible)
    (h : token.kind = type.kind) : typePath? [token] = some (token, type) := by
  obtain ⟨root, members⟩ := type
  cases members with
  | nil =>
    have hname : token.name? = some root := Token.name?_eq_some_iff.2 ⟨h, htype rfl⟩
    have hpath : token.path? = none := by simp [Token.path?, Token.kind_of_name? hname]
    simp [typePath?, hpath, hname, NamePath.ofName]
  | cons member members =>
    have hpath : token.path? = some (root :: member :: members) := by
      rw [Token.path?, h]
      rfl
    simp [typePath?, hpath, NamePath.ofParts]

theorem gives_readArgument_of {tokens argument : List Token} {recur : Numbered Expr}
    {result : Expr} (hne : argument ≠ []) (h : recur.Gives next result after) :
    (readArgument line first tokens argument recur).Gives next result after := by
  rwa [readArgument, List.isEmpty_eq_false_iff.2 hne, if_neg Bool.false_ne_true]

end Shape

namespace Grammar

variable {grammar : Grammar} {line : Line} {tokens : List Token} {next after : Nat}

/-- Tokens are read as an expression, with any number to start from. -/
def Rereads (line : Line) (tokens : List Token) (whole : Expr) : Prop :=
  ∀ next, ∃ result after, (standard.read line tokens).Gives next result after ∧ result.Same whole

theorem exists_gives_mapM {read : List Token → Numbered Expr} {parts : List (List Token)}
    {targets : List Expr} (hkinds : parts.map (List.map Token.kind) = targets.map Expr.kinds)
    (h : ∀ target ∈ targets, ∀ part : List Token, part.map Token.kind = target.kinds →
      ∀ next, ∃ result after, (read part).Gives next result after ∧ result.Same target)
    (next : Nat) :
    ∃ results after, (parts.mapM read).Gives next results after ∧
      results.map Expr.erased = targets.map Expr.erased ∧
      results.map Expr.text = targets.map Expr.text := by
  induction targets generalizing parts next with
  | nil =>
    rw [List.map_nil, List.map_eq_nil_iff] at hkinds
    subst hkinds
    exact ⟨[], next, by simp, rfl, rfl⟩
  | cons target targets ih =>
    obtain ⟨part, parts, rfl, hpart, hparts⟩ := List.map_eq_cons_iff.1 hkinds
    obtain ⟨hhead, htail⟩ := List.forall_mem_cons.1 h
    obtain ⟨result, between, hresult, herased, htext, _⟩ := hhead part hpart next
    obtain ⟨results, after, hresults, herased', htext'⟩ := ih hparts htail between
    refine ⟨result :: results, after, ?_, congrArg₂ List.cons herased herased',
      congrArg₂ List.cons htext htext'⟩
    rw [List.mapM_cons, gives_bind]
    refine ⟨result, between, hresult, ?_⟩
    rw [gives_bind]
    exact ⟨results, after, hresults, by simp⟩

theorem gives_marked {α : Type} {reading : Numbered α} {value : α} {first : Token}
    (build : Mark → α → Expr) (h : reading.Gives next value after) :
    (do
      let value ← reading
      return build (← mark line first) value).Gives next
        (build ⟨after, line.tokenReference first⟩ value) (after + 1) := by
  rw [gives_bind]
  refine ⟨value, after, h, ?_⟩
  rw [gives_bind]
  exact ⟨_, _, gives_mark.2 ⟨rfl, rfl⟩, by simp⟩

theorem gives_mark_pure {first : Token} (build : Mark → Expr) :
    (do return build (← mark line first)).Gives next
      (build ⟨next, line.tokenReference first⟩) (next + 1) := by
  rw [gives_bind]
  exact ⟨_, _, gives_mark.2 ⟨rfl, rfl⟩, by simp⟩

variable {first second third last : Token} {rest inner : List Token} {mark mark' : Mark}
  {inside value left right target : Expr}

/-! ### Statements -/

theorem rereads_branch {kind : Branch} (hfirst : first.kind = kind.keyword.kind)
    (hne : rest ≠ []) (h : Rereads line rest inside) :
    Rereads line (first :: rest) (Shape.branchOf kind mark inside) := by
  intro next
  obtain ⟨result, after, hresult, herased, htext, _⟩ := h next
  refine ⟨Shape.branchOf kind ⟨after, line.tokenReference first⟩ result, after + 1, ?_, ?_⟩
  · rw [read_of_recognize? (List.cons_ne_nil _ _) (recognize?_branch hfirst), Shape.read,
      List.isEmpty_eq_false_iff.2 hne, if_neg Bool.false_ne_true]
    exact gives_marked (Shape.branchOf kind) hresult
  · cases kind <;> constructor <;>
      simp [Shape.branchOf, Expr.erased, Expr.text, Expr.isBinary, herased, htext]

theorem rereads_fallback {kind : Fallback} (hfirst : first.kind = kind.keyword.kind) :
    Rereads line [first] (Shape.fallbackOf kind mark) := by
  intro next
  refine ⟨Shape.fallbackOf kind ⟨next, line.tokenReference first⟩, next + 1, ?_, ?_⟩
  · rw [read_of_recognize? (List.cons_ne_nil _ _) (recognize?_fallback hfirst), Shape.read]
    exact gives_mark_pure (Shape.fallbackOf kind)
  · cases kind <;> constructor <;> rfl

theorem rereads_declare {type : WrittenType} {word : String} (hfirst : first.OpensNothing)
    (htype : WrittenType.ofToken? first = some type) (hname : second.name? = some word) :
    Rereads line [first, second] (.declare mark type word none) := by
  intro next
  refine ⟨Expr.declare ⟨next, line.tokenReference first⟩ type word none, next + 1, ?_, ?_⟩
  · rw [read_of_recognize? (List.cons_ne_nil _ _) (recognize?_declaration hfirst htype hname),
      Shape.read]
    exact gives_mark_pure fun mark => .declare mark type word none
  · constructor <;> rfl

theorem rereads_declareWith {type : WrittenType} {word : String} (hfirst : first.OpensNothing)
    (htype : WrittenType.ofToken? first = some type) (hname : second.name? = some word)
    (hthird : third.isOperator .assignment = true) (hne : rest ≠ [])
    (h : Rereads line rest value) :
    Rereads line (first :: second :: third :: rest) (.declare mark type word (some value)) := by
  intro next
  obtain ⟨result, after, hresult, herased, htext, _⟩ := h next
  refine ⟨Expr.declare ⟨after, line.tokenReference first⟩ type word (some result), after + 1, ?_, ?_⟩
  · rw [read_of_recognize? (List.cons_ne_nil _ _)
        (recognize?_declarationWith hfirst htype hname hthird), Shape.read,
      List.isEmpty_eq_false_iff.2 hne, if_neg Bool.false_ne_true]
    exact gives_marked (fun mark value => .declare mark type word (some value)) hresult
  · constructor <;> simp [Expr.erased, Expr.text, Expr.isBinary, herased, htext]

theorem rereads_assign {target' : Target} (hfirst : first.OpensNothing)
    (htarget : Rule.target? first = some target')
    (hsame : ∀ mark, (Shape.targetOf target' mark).Same target)
    (hsecond : second.isOperator .assignment = true) (hne : rest ≠ [])
    (h : Rereads line rest value) :
    Rereads line (first :: second :: rest) (.assign mark target value) := by
  intro next
  obtain ⟨result, after, hresult, herased, htext, _⟩ := h (next + 1)
  refine ⟨Expr.assign ⟨after, line.tokenReference first⟩
    (Shape.targetOf target' ⟨next, line.tokenReference first⟩) result, after + 1, ?_, ?_⟩
  · rw [read_of_recognize? (List.cons_ne_nil _ _) (recognize?_assignment hfirst htarget hsecond),
      Shape.read, List.isEmpty_eq_false_iff.2 hne, if_neg Bool.false_ne_true, gives_bind]
    refine ⟨_, _, gives_mark.2 ⟨rfl, rfl⟩, ?_⟩
    exact gives_marked (fun mark value => .assign mark (Shape.targetOf target' _) value) hresult
  · obtain ⟨herased', htext', _⟩ := hsame ⟨next, line.tokenReference first⟩
    constructor <;> simp [Expr.erased, Expr.text, Expr.isBinary, herased, htext, herased', htext']

/-! ### Groups and values -/

theorem rereads_group (hfirst : first.isOperator .openParenthesis = true) (hne : inner ≠ [])
    (hinner : Token.Nested inner) (hlast : last.closes = true)
    (hsealed : TokenKind.Sealed ((first :: (inner ++ [last])).map Token.kind))
    (h : Rereads line inner inside) :
    Rereads line (first :: (inner ++ [last])) (.group mark inside) := by
  intro next
  obtain ⟨result, after, hresult, herased, htext, hbinary⟩ := h next
  refine ⟨Expr.group ⟨after, line.tokenReference first⟩ result, after + 1, ?_, ?_⟩
  · rw [read_of_recognize? (List.cons_ne_nil _ _) (recognize?_group hfirst hinner hlast hsealed),
      Shape.read, List.isEmpty_eq_false_iff.2 hne, if_neg Bool.false_ne_true]
    exact gives_marked .group hresult
  · constructor
    · simp [Expr.erased, herased]
    · simp [Expr.text, hbinary, htext]
    · rfl

theorem rereads_binary {sign : Token} {operator : Operator} {before after : List Token}
    (hstatement : Rule.NoStatement (before ++ sign :: after)) (hbefore : before ≠ [])
    (hafter : after ≠ []) (hleft : TokenKind.Sealed (before.map Token.kind))
    (hright : TokenKind.Sealed (after.map Token.kind)) (hsign : sign.isOperator operator = true)
    (hoperator : operator.isBinary = true) (h : Rereads line before left)
    (h' : Rereads line after right) :
    Rereads line (before ++ sign :: after) (.binary mark left operator right) := by
  intro next
  obtain ⟨leftResult, between, hleftResult, herased, htext, _⟩ := h next
  obtain ⟨rightResult, last, hrightResult, herased', htext', _⟩ := h' between
  obtain ⟨first, before, rfl⟩ := List.exists_cons_of_ne_nil hbefore
  refine ⟨Expr.binary ⟨last, line.tokenReference first⟩ leftResult operator rightResult, last + 1, ?_, ?_⟩
  · rw [read_of_recognize? (by simp) (recognize?_binary hstatement hleft hright hsign
        hoperator rfl), Shape.read, List.isEmpty_eq_false_iff.2 hbefore, if_neg Bool.false_ne_true,
      List.isEmpty_eq_false_iff.2 hafter, if_neg Bool.false_ne_true, gives_bind]
    refine ⟨_, _, hleftResult, ?_⟩
    exact gives_marked (fun mark right => .binary mark leftResult operator right) hrightResult
  · constructor <;> simp [Expr.erased, Expr.text, Expr.isBinary, herased, htext, herased', htext']

theorem rereads_indexed {table : String} (hfirst : first.name? = some table)
    (hsecond : second.isOperator .openBracket = true) (hne : inner ≠ [])
    (hinner : Token.Nested inner) (hlast : last.closes = true)
    (hsealed : TokenKind.Sealed ((first :: second :: (inner ++ [last])).map Token.kind))
    (h : Rereads line inner inside) :
    Rereads line (first :: second :: (inner ++ [last])) (.indexed mark table inside) := by
  intro next
  obtain ⟨result, after, hresult, herased, htext, _⟩ := h next
  refine ⟨Expr.indexed ⟨after, line.tokenReference first⟩ table result, after + 1, ?_, ?_⟩
  · rw [read_of_recognize? (List.cons_ne_nil _ _)
        (recognize?_indexed hfirst hsecond hinner hlast hsealed), Shape.read,
      List.isEmpty_eq_false_iff.2 hne, if_neg Bool.false_ne_true]
    exact gives_marked (fun mark index => .indexed mark table index) hresult
  · constructor <;> simp [Expr.erased, Expr.text, Expr.isBinary, herased, htext]

theorem rereads_singleton {shape : Shape} (build : Mark → Expr)
    (h : standard.recognize? [first] = some shape)
    (hread : ∀ recur, shape.read line recur = do return build (← Numbered.mark line first))
    (hsame : ∀ mark', (build mark').Same inside) : Rereads line [first] inside := by
  intro next
  refine ⟨build ⟨next, line.tokenReference first⟩, next + 1, ?_, hsame ⟨next, line.tokenReference first⟩⟩
  rw [read_of_recognize? (List.cons_ne_nil _ _) h, hread]
  exact gives_mark_pure build

end Grammar

end DecisionLang
