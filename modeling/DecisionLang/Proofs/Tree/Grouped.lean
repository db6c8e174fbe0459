import DecisionLang.Proofs.Grammar.Written
import DecisionLang.Tree.ExprText
import DecisionLang.Tree.Walk

/-!
# Expressions as they are written

`Expr.grouped` puts the brackets into an expression that its text shows: a group around every binary
expression and no second one where it stands in a group. It has the same text and, without marks and
groups, is the same expression (`Expr.erased`).
-/

namespace DecisionLang

namespace ColumnName

def erased (name : ColumnName) : ColumnName := { name with reference := ⟨"", 0, 0⟩ }

end ColumnName

namespace Expr

/-- The mark of expressions whose number and place do not matter. -/
def noMark : Mark := ⟨0, ⟨"", 0, 0⟩⟩

mutual

/-- Every binary expression in a group, and no other group around it. -/
def grouped : Expr → Expr
  | binary mark left operator right => group mark (binary mark left.grouped operator right.grouped)
  | group mark inner => if inner.isBinary then inner.grouped else group mark inner.grouped
  | assign mark target value => assign mark target.grouped value.grouped
  | declare mark type declared default => declare mark type declared (grouped? default)
  | indexed mark table index => indexed mark table index.grouped
  | extract mark object => extract mark object.grouped
  | lookUp mark function table tableReference discriminator value discriminatorColumn searchColumn
      resultColumn =>
    lookUp mark function table tableReference (grouped? discriminator) value.grouped
      discriminatorColumn searchColumn resultColumn
  | call mark function arguments => call mark function (allGrouped arguments)
  | ifThen mark condition body alternatives => ifThen mark condition.grouped body alternatives
  | elseIf mark condition body => elseIf mark condition.grouped body
  | switch mark subject cases => switch mark subject.grouped cases
  | case mark value body => case mark (grouped? value) body
  | spreadAssign mark invoked => spreadAssign mark invoked.grouped
  | literal mark value => literal mark value
  | name mark word => name mark word
  | path mark names => path mark names
  | make mark making type typeReference => make mark making type typeReference
  | otherwise mark body => otherwise mark body
  | spread mark => spread mark

def allGrouped : List Expr → List Expr
  | [] => []
  | expression :: rest => expression.grouped :: allGrouped rest

def grouped? : Option Expr → Option Expr
  | none => none
  | some expression => some expression.grouped

end

mutual

def erased : Expr → Expr
  | literal _ value => literal noMark value
  | name _ word => name noMark word
  | path _ names => path noMark names
  | binary _ left operator right => binary noMark left.erased operator right.erased
  | assign _ target value => assign noMark target.erased value.erased
  | declare _ type declared default => declare noMark type declared (erased? default)
  | group _ inner => inner.erased
  | indexed _ table index => indexed noMark table index.erased
  | make _ making type _ => make noMark making type noMark.reference
  | extract _ object => extract noMark object.erased
  | lookUp _ function table _ discriminator value discriminatorColumn searchColumn resultColumn =>
    lookUp noMark function table noMark.reference (erased? discriminator) value.erased
      (discriminatorColumn.map ColumnName.erased) searchColumn.erased
      (resultColumn.map ColumnName.erased)
  | call _ function arguments => call noMark function (allErased arguments)
  | ifThen _ condition body alternatives =>
    ifThen noMark condition.erased (allErased body) (allErased alternatives)
  | elseIf _ condition body => elseIf noMark condition.erased (allErased body)
  | otherwise _ body => otherwise noMark (allErased body)
  | switch _ subject cases => switch noMark subject.erased (allErased cases)
  | case _ value body => case noMark (erased? value) (allErased body)
  | spread _ => spread noMark
  | spreadAssign _ invoked => spreadAssign noMark invoked.erased

def allErased : List Expr → List Expr
  | [] => []
  | expression :: rest => expression.erased :: allErased rest

def erased? : Option Expr → Option Expr
  | none => none
  | some expression => some expression.erased

end

@[simp] theorem allGrouped_eq (expressions : List Expr) :
    allGrouped expressions = expressions.map grouped := by
  induction expressions with
  | nil => rfl
  | cons expression rest ih => rw [allGrouped, ih, List.map_cons]

@[simp] theorem grouped?_eq (expression? : Option Expr) :
    grouped? expression? = expression?.map grouped := by
  cases expression? <;> rfl

@[simp] theorem allErased_eq (expressions : List Expr) :
    allErased expressions = expressions.map erased := by
  induction expressions with
  | nil => rfl
  | cons expression rest ih => rw [allErased, ih, List.map_cons]

@[simp] theorem erased?_eq (expression? : Option Expr) :
    erased? expression? = expression?.map erased := by
  cases expression? <;> rfl

@[simp] theorem texts_eq (expressions : List Expr) : texts expressions = expressions.map text := by
  induction expressions with
  | nil => rfl
  | cons expression rest ih => rw [texts, ih, List.map_cons]

@[simp] theorem texts?_eq (expression? : Option Expr) :
    texts? expression? = expression?.map text := by
  cases expression? <;> rfl

theorem induction_of_children {P : Expr → Prop}
    (step : ∀ whole, (∀ part ∈ whole.children, P part) → P whole) (whole : Expr) : P whole := by
  induction hsize : sizeOf whole using Nat.strongRecOn generalizing whole with
  | ind size ih =>
    subst hsize
    exact step whole fun part hpart => ih _ (sizeOf_lt_of_mem_children hpart) part rfl

@[simp] theorem isBinary_grouped (whole : Expr) : whole.grouped.isBinary = false := by
  cases whole with
  | group _ inner => cases inner <;> rfl
  | _ => rfl

theorem text_grouped (whole : Expr) : whole.grouped.text = whole.text := by
  induction whole using induction_of_children with
  | step whole ih =>
    cases whole with
    | group _ inner =>
      have hinner := ih inner (by simp [children])
      cases hbinary : inner.isBinary <;> simp [grouped, text, hbinary, hinner]
    | binary _ left _ right =>
      simp [grouped, text, isBinary, ih left (by simp [children]), ih right (by simp [children])]
    | call _ function arguments =>
      have harguments : arguments.map (fun argument => argument.grouped.text) =
          arguments.map text := List.map_congr_left ih
      simp [grouped, text, Function.comp_def, harguments]
    | declare _ _ _ default => cases default <;> simp_all [grouped, text, children]
    | case _ value => cases value <;> simp_all [grouped, text, children]
    | lookUp _ _ _ _ discriminator => cases discriminator <;> simp_all [grouped, text, children]
    | _ => simp_all [grouped, text, children]

/-- Nothing but groups is put in or left out. -/
theorem erased_grouped (whole : Expr) : whole.grouped.erased = whole.erased := by
  induction whole using induction_of_children with
  | step whole ih =>
    cases whole with
    | group _ inner =>
      have hinner := ih inner (by simp [children])
      cases hbinary : inner.isBinary <;> simp [grouped, erased, hbinary, hinner]
    | call _ function arguments =>
      have harguments : arguments.map (fun argument => argument.grouped.erased) =
          arguments.map erased := List.map_congr_left ih
      simp [grouped, erased, Function.comp_def, harguments]
    | declare _ _ _ default => cases default <;> simp_all [grouped, erased, children]
    | case _ value => cases value <;> simp_all [grouped, erased, children]
    | lookUp _ _ _ _ discriminator => cases discriminator <;> simp_all [grouped, erased, children]
    | _ => simp_all [grouped, erased, children]

theorem isInfix_intercalate {α : Type} {separator piece : List α} {pieces : List (List α)}
    (h : piece ∈ pieces) : piece <:+: separator.intercalate pieces := by
  induction pieces with
  | nil => cases h
  | cons first others ih =>
    cases others with
    | nil =>
      rw [List.mem_singleton.1 h]
      exact ⟨[], [], by simp [List.intercalate_singleton]⟩
    | cons second others =>
      rw [List.intercalate_cons_cons]
      rcases List.mem_cons.1 h with rfl | h
      · rw [List.append_assoc]
        exact (List.prefix_append _ _).isInfix
      · exact (ih h).trans (List.suffix_append _ _).isInfix

theorem mem_or_mem_of_mem_intercalate {α : Type} {separator : List α} {pieces : List (List α)}
    {item : α} (h : item ∈ separator.intercalate pieces) :
    item ∈ separator ∨ ∃ piece ∈ pieces, item ∈ piece := by
  induction pieces with
  | nil => cases h
  | cons first others ih =>
    cases others with
    | nil =>
      rw [List.intercalate_singleton] at h
      exact .inr ⟨first, List.mem_cons_self, h⟩
    | cons second others =>
      rw [List.intercalate_cons_cons, List.mem_append, List.mem_append] at h
      rcases h with (h | h) | h
      · exact .inr ⟨first, List.mem_cons_self, h⟩
      · exact .inl h
      · rcases ih h with h | ⟨piece, hpiece, h⟩
        · exact .inl h
        · exact .inr ⟨piece, List.mem_cons_of_mem _ hpiece, h⟩

theorem mem_callKinds {function : String} {arguments : List (List TokenKind)} {kind : TokenKind}
    (hkind : ∀ sign, kind ≠ .operator sign) :
    kind ∈ callKinds function arguments ↔
      kind = .word function ∨ ∃ argument ∈ arguments, kind ∈ argument := by
  simp only [callKinds, List.mem_append, List.mem_cons, List.not_mem_nil, hkind, or_false,
    false_or, List.cons_append]
  constructor
  · rintro (h | h)
    · exact .inl h
    · refine .inr ((mem_or_mem_of_mem_intercalate h).resolve_left ?_)
      simp [hkind]
  · rintro (h | ⟨argument, hargument, h⟩)
    · exact .inl h
    · exact .inr ((isInfix_intercalate hargument).subset h)

theorem mem_kinds_of_mem_grouped {whole : Expr} {kind : TokenKind}
    (hkind : ∀ sign, kind ≠ .operator sign) (h : kind ∈ whole.grouped.kinds) :
    kind ∈ whole.kinds := by
  induction whole using induction_of_children with
  | step whole ih =>
    cases whole with
    | group _ inner =>
      have hinner := ih inner (by simp [children])
      cases hbinary : inner.isBinary <;> simp_all [grouped, kinds]
    | call _ function arguments =>
      simp only [grouped, kinds, mem_callKinds hkind] at h ⊢
      simp_all [children]
      grind
    | declare _ _ _ default =>
      cases default with
      | none => simp_all [grouped, kinds]
      | some value =>
        simp_all [grouped, kinds, children]
        grind
    | case _ value =>
      cases value with
      | none => simp_all [grouped, kinds]
      | some value =>
        simp_all [grouped, kinds, children]
        grind
    | lookUp _ _ _ _ discriminator =>
      simp only [grouped, kinds, mem_callKinds hkind] at h ⊢
      cases discriminator <;> simp_all [children] <;> grind
    | extract =>
      simp only [grouped, kinds, mem_callKinds hkind] at h ⊢
      simp_all [children]
      exact h.imp_right ih
    | _ => simp_all [grouped, kinds, children] <;> grind

end Expr

end DecisionLang
