import DecisionLang.Proofs.Grammar.Brackets
import DecisionLang.Proofs.Token.Rescanned
import DecisionLang.Proofs.Token.Sealed
import DecisionLang.Proofs.Tree.Grouped

/-!
# Expressions that can be read back

`Expr.Legible` says of an expression, one case for each form, what makes the standard grammar find
this form in its tokens and no other: names are not reserved, binary expressions stand in groups, no
left operand takes in what follows it, and so on.
-/

namespace DecisionLang

namespace Expr

/-- Statements that take in whatever follows them. -/
def isOpen : Expr → Bool
  | ifThen .. | elseIf .. | otherwise .. | switch .. | case .. | assign .. | spreadAssign .. => true
  | declare _ _ _ default => default.isSome
  | _ => false

/-- Literals that start with a minus. -/
def isNegative : Expr → Bool
  | literal _ value => value.toKind.isNegative
  | _ => false

@[simp] theorem isOpen_grouped (whole : Expr) : whole.grouped.isOpen = whole.isOpen := by
  cases whole with
  | group _ inner => cases inner <;> simp [grouped, isOpen, isBinary]
  | declare _ _ _ default => cases default <;> rfl
  | _ => rfl

@[simp] theorem isNegative_grouped (whole : Expr) :
    whole.grouped.isNegative = whole.isNegative := by
  cases whole with
  | group _ inner => cases inner <;> simp [grouped, isNegative, isBinary]
  | _ => rfl

end Expr

def IsName (word : String) : Prop := Keyword.ofSpelling? word = none

instance (word : String) : Decidable (IsName word) :=
  inferInstanceAs (Decidable (Keyword.ofSpelling? word = none))

/-- A path of one name is written as a word, which must not be reserved. -/
def NamePath.IsLegible (path : NamePath) : Prop := path.members = [] → IsName path.root

/-- The token that a type is written as is read as the type. -/
def WrittenType.IsLegible (type : WrittenType) : Prop :=
  ∀ token : Token, token.kind = type.kind → ofToken? token = some type

namespace Expr

/-- What can be assigned to. -/
inductive IsTarget : Expr → Prop
  | name {mark : Mark} {word : String} (hword : IsName word) : IsTarget (name mark word)
  | path {mark : Mark} {names : NamePath} (hnames : names.members ≠ []) : IsTarget (path mark names)

/-- Expressions that are read from their own tokens. -/
inductive Legible : Expr → Prop
  | literal {mark : Mark} {value : Literal} : Legible (literal mark value)
  | name {mark : Mark} {word : String} (hword : IsName word) : Legible (name mark word)
  | path {mark : Mark} {names : NamePath} (hnames : names.members ≠ []) : Legible (path mark names)
  | combined {mark mark' : Mark} {left right : Expr} {operator : Operator}
      (hoperator : operator.isBinary = true) (hclosed : left.isOpen = false)
      (hleft : Legible left) (hright : Legible right) :
      Legible (group mark (binary mark' left operator right))
  | group {mark : Mark} {inner : Expr} (hinner : Legible inner) : Legible (group mark inner)
  | assign {mark : Mark} {target value : Expr} (htarget : target.IsTarget)
      (hvalue : Legible value) : Legible (assign mark target value)
  | declare {mark : Mark} {type : WrittenType} {declared : String} {default : Option Expr}
      (htype : type.IsLegible) (hdeclared : IsName declared)
      (hdefault : ∀ value ∈ default, Legible value) : Legible (declare mark type declared default)
  | indexed {mark : Mark} {table : String} {index : Expr} (htable : IsName table)
      (hindex : Legible index) : Legible (indexed mark table index)
  | make {mark : Mark} {making : Making} {type : NamePath} {reference : Reference}
      (htype : type.IsLegible) : Legible (make mark making type reference)
  | extract {mark : Mark} {object : Expr} (hobject : Legible object) :
      Legible (extract mark object)
  | lookUp {mark : Mark} {function : TableFunction} {table : String} {reference : Reference}
      {discriminator : Option Expr} {value : Expr} {discriminatorColumn : Option ColumnName}
      {searchColumn : ColumnName} {resultColumn : Option ColumnName} (htable : IsName table)
      (hpair : discriminator.isSome = function.hasDiscriminator)
      (hpairColumn : discriminatorColumn.isSome = function.hasDiscriminator)
      (hresult : resultColumn.isNone = function.returnsRow)
      (hdiscriminator : ∀ value ∈ discriminator, Legible value) (hvalue : Legible value) :
      Legible (lookUp mark function table reference discriminator value discriminatorColumn
        searchColumn resultColumn)
  | call {mark : Mark} {function : String} {arguments : List Expr} (hfunction : IsName function)
      (hobject : ObjectFunction.ofSpelling? function = none)
      (htable : TableFunction.ofSpelling? function = none)
      (harguments : ∀ argument ∈ arguments, Legible argument) :
      Legible (call mark function arguments)
  | branch {kind : Branch} {mark : Mark} {subject : Expr} (hsign : subject.isNegative = false)
      (hsubject : Legible subject) : Legible (Shape.branchOf kind mark subject)
  | fallback {kind : Fallback} {mark : Mark} : Legible (Shape.fallbackOf kind mark)
  | spread {mark : Mark} : Legible (spread mark)
  | spreadAssign {mark mark' : Mark} {function : String} {arguments : List Expr}
      (hfunction : IsName function) (hobject : ObjectFunction.ofSpelling? function = none)
      (htable : TableFunction.ofSpelling? function = none)
      (harguments : ∀ argument ∈ arguments, Legible argument) :
      Legible (spreadAssign mark (call mark' function arguments))

theorem Legible.isBinary {whole : Expr} (h : whole.Legible) : whole.isBinary = false := by
  cases h with
  | @branch kind => cases kind <;> rfl
  | @fallback kind => cases kind <;> rfl
  | _ => rfl

theorem Legible.arguments {mark : Mark} {function : String} {arguments : List Expr}
    (h : (Expr.call mark function arguments).Legible) :
    IsName function ∧ ObjectFunction.ofSpelling? function = none ∧
      TableFunction.ofSpelling? function = none ∧ ∀ argument ∈ arguments, argument.Legible := by
  generalize hwhole : Expr.call mark function arguments = whole at h
  cases h with
  | call hfunction hobject htable harguments =>
    cases hwhole
    exact ⟨hfunction, hobject, htable, harguments⟩
  | @branch kind => cases kind <;> cases hwhole
  | @fallback kind => cases kind <;> cases hwhole
  | _ => cases hwhole

theorem kinds_ne_nil (whole : Expr) : whole.kinds ≠ [] := by
  cases whole with
  | declare _ _ _ default => cases default <;> simp [kinds]
  | case _ value => cases value <;> simp [kinds]
  | _ => simp [kinds, callKinds]

/-! ### Brackets -/

theorem sealed_call {mark : Mark} {function : String} {arguments : List Expr}
    (h : ∀ argument ∈ arguments, TokenKind.Sealed argument.kinds) :
    TokenKind.Sealed (call mark function arguments).kinds := by
  rw [kinds, allKinds_eq]
  exact sealed_callKinds (List.forall_mem_map.2 fun argument hargument =>
    (h argument hargument).nested)

/-- All operators and separators of a legible expression stand in brackets. -/
theorem Legible.sealed {whole : Expr} (h : whole.Legible) : TokenKind.Sealed whole.kinds := by
  induction h with
  | @literal _ value =>
    cases value <;> exact (TokenKind.sealed_cons rfl rfl rfl).2 TokenKind.sealed_nil
  | name => exact TokenKind.sealed_word _
  | path => exact (TokenKind.sealed_cons rfl rfl rfl).2 TokenKind.sealed_nil
  | combined hoperator _ _ _ ihleft ihright =>
    rw [kinds, kinds]
    exact (ihleft.nested.append (ihright.nested.binary hoperator)).sealed rfl
  | group _ ih =>
    rw [kinds]
    exact ih.nested.sealed rfl
  | assign htarget _ ih =>
    rw [kinds]
    cases htarget with
    | name => exact (TokenKind.sealed_cons rfl rfl rfl).2 ((TokenKind.sealed_cons rfl rfl rfl).2 ih)
    | path => exact (TokenKind.sealed_cons rfl rfl rfl).2 ((TokenKind.sealed_cons rfl rfl rfl).2 ih)
  | @declare _ type _ default _ _ _ ih =>
    cases default with
    | none => exact type.sealed_kind.append (TokenKind.sealed_word _)
    | some value =>
      exact type.sealed_kind.append ((TokenKind.sealed_cons rfl rfl rfl).2
        ((TokenKind.sealed_cons rfl rfl rfl).2 (ih value rfl)))
  | indexed _ _ ih =>
    rw [kinds, List.cons_append, TokenKind.sealed_cons rfl rfl rfl]
    exact ih.nested.sealed rfl
  | @make _ _ type =>
    rw [kinds]
    exact sealed_callKinds (by simpa using type.sealed_kind.nested)
  | extract _ ih =>
    rw [kinds]
    exact sealed_callKinds (by simpa using ih.nested)
  | lookUp _ _ _ _ _ _ ihdiscriminator ih =>
    exact sealed_lookUp (fun part hpart => (ihdiscriminator part hpart).nested) ih.nested
  | call _ _ _ _ ih => exact sealed_call ih
  | branch _ _ ih =>
    rw [Shape.kinds_branchOf, TokenKind.sealed_cons rfl rfl rfl]
    exact ih
  | fallback =>
    rw [Shape.kinds_fallbackOf]
    exact TokenKind.sealed_word _
  | spread => exact (TokenKind.sealed_cons rfl rfl rfl).2 TokenKind.sealed_nil
  | spreadAssign _ _ _ _ ih =>
    rw [kinds, TokenKind.sealed_cons rfl rfl rfl, TokenKind.sealed_cons rfl rfl rfl]
    exact sealed_call ih

end Expr

end DecisionLang
