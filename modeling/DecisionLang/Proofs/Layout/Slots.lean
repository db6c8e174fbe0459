import DecisionLang.Proofs.Layout.Relocated

/-!
# Receivers in another place

Where a receiver stands says nothing about the receivers inside it: they are found in the same
slots, put back in the same way, and opened by the same lines.
-/

namespace DecisionLang

variable (move : Reference → Reference) (comments : List Comment)

/-! ### Names -/

@[simp] theorem Declaration.name_relocate (declaration : Declaration) :
    (declaration.relocate move).name = declaration.name := by
  cases declaration <;> rfl

@[simp] theorem Declaration.reference_relocate (declaration : Declaration) :
    (declaration.relocate move).reference = move declaration.reference := by
  cases declaration <;> rfl

theorem Document.find?_relocate (document : Document) (name : String) :
    (document.relocate move comments).find? name =
      (document.find? name).map (Declaration.relocate move) := by
  have hname : (fun declaration => declaration.name == name) ∘ Declaration.relocate move =
      fun declaration => declaration.name == name := by
    funext declaration
    rw [Function.comp_apply, Declaration.name_relocate]
  rw [find?, find?, relocate, List.find?_map, hname]

theorem EnumDecl.hasMember_relocate (decl : EnumDecl) (name : String) :
    (decl.relocate move).hasMember name = decl.hasMember name := by
  simp [hasMember, relocate, EnumMember.relocate, Function.comp_def]

/-! ### Blocks -/

namespace FunctionDecl

theorem block?_relocate (decl : FunctionDecl) (block : FunctionBlock) :
    (decl.relocate move).block? block =
      (decl.block? block).map (Receiver.relocate move comments) := by
  cases block <;> simp [block?, relocate, Function.comp_def, Receiver.relocate, CodeBlock.relocate]

theorem relocate_withBlock (decl : FunctionDecl) (block : FunctionBlock) (inner : Receiver) :
    (decl.withBlock block inner).relocate move =
      (decl.relocate move).withBlock block (inner.relocate move comments) := by
  cases block <;> cases inner <;>
    simp [withBlock, relocate, Receiver.relocate, CodeBlock.relocate, Function.comp_def]

theorem relocate_openBlock (decl : FunctionDecl) (reference : Reference) (block : FunctionBlock) :
    (decl.openBlock reference block).relocate move =
      (decl.relocate move).openBlock (move reference) block := by
  cases block <;> rfl

end FunctionDecl

namespace ScenarioDecl

theorem inlineFunction?_relocate (decl : ScenarioDecl) :
    (decl.relocate move).inlineFunction? =
      decl.inlineFunction?.map (FunctionDecl.relocate move) := by
  rcases hfunction : decl.function with _ | _ | _ <;>
    simp [inlineFunction?, relocate, hfunction, TestedFunction.relocate]

theorem block?_relocate (decl : ScenarioDecl) (block : ScenarioBlock) :
    (decl.relocate move).block? block =
      (decl.block? block).map (Receiver.relocate move comments) := by
  cases block with
  | function => simp [block?, inlineFunction?_relocate, Function.comp_def, Receiver.relocate]
  | _ => simp [block?, relocate, Function.comp_def, Receiver.relocate]

theorem relocate_withBlock (decl : ScenarioDecl) (block : ScenarioBlock) (inner : Receiver) :
    (decl.withBlock block inner).relocate move =
      (decl.relocate move).withBlock block (inner.relocate move comments) := by
  cases block <;> cases inner <;> rfl

theorem relocate_openBlock (decl : ScenarioDecl) (reference : Reference) (block : ScenarioBlock) :
    (decl.openBlock reference block).relocate move =
      (decl.relocate move).openBlock (move reference) block := by
  cases block <;> rfl

end ScenarioDecl

/-! ### Slots -/

namespace Receiver

theorem relocate_ofDeclaration (declaration : Declaration) :
    (ofDeclaration declaration).relocate move comments =
      ofDeclaration (declaration.relocate move) := by
  cases declaration <;> rfl

theorem getElem?_expressions (expressions : List Expr) (slot : Nat) :
    (expressions.map (Expr.relocate move))[slot]?.map expression =
      (expressions[slot]?.map expression).map (relocate move comments) := by
  simp only [List.getElem?_map, Option.map_map]
  rfl

theorem slot?_relocate (receiver : Receiver) (slot : Nat) :
    (receiver.relocate move comments).slot? slot =
      (receiver.slot? slot).map (relocate move comments) := by
  cases receiver with
  | document whole =>
    change (whole.declarations.map (Declaration.relocate move))[slot]?.map ofDeclaration =
      (whole.declarations[slot]?.map ofDeclaration).map (relocate move comments)
    rw [List.getElem?_map, Option.map_map, Option.map_map]
    congr 1
    exact funext fun declaration => (relocate_ofDeclaration move comments declaration).symm
  | function decl =>
    simp only [relocate, slot?]
    cases FunctionBlock.ofSlot? slot with
    | none => rfl
    | some block => exact FunctionDecl.block?_relocate move comments decl block
  | scenario decl =>
    simp only [relocate, slot?]
    cases ScenarioBlock.ofSlot? slot with
    | none => rfl
    | some block => exact ScenarioDecl.block?_relocate move comments decl block
  | body expressions => exact getElem?_expressions move comments expressions slot
  | expression item =>
    cases item with
    | ifThen _ _ _ alternatives =>
      cases slot with
      | zero => simp [relocate, Expr.relocate, slot?]
      | succ slot =>
        simp only [relocate, Expr.relocate, slot?, Expr.relocateAll_eq]
        exact getElem?_expressions move comments alternatives slot
    | switch _ _ cases =>
      simp only [relocate, Expr.relocate, slot?, Expr.relocateAll_eq]
      exact getElem?_expressions move comments cases slot
    | elseIf | otherwise | case => cases slot <;> simp [relocate, Expr.relocate, slot?]
    | _ => rfl
  | _ => rfl

theorem relocate_withSlot (receiver : Receiver) (slot : Nat) (inner : Receiver) :
    (receiver.withSlot slot inner).relocate move comments =
      (receiver.relocate move comments).withSlot slot (inner.relocate move comments) := by
  cases receiver with
  | document whole =>
    cases inner with
    | function | enumeration | table | record | scenario =>
      simp [withSlot, relocate, declaration?, Document.relocate, List.map_set,
        Declaration.relocate]
    | _ => rfl
  | function decl =>
    simp only [withSlot, relocate]
    cases FunctionBlock.ofSlot? slot with
    | none => rfl
    | some block =>
      exact congrArg function (FunctionDecl.relocate_withBlock move comments decl block inner)
  | scenario decl =>
    simp only [withSlot, relocate]
    cases ScenarioBlock.ofSlot? slot with
    | none => rfl
    | some block =>
      exact congrArg scenario (ScenarioDecl.relocate_withBlock move comments decl block inner)
  | body expressions =>
    cases inner with
    | expression item => simp [withSlot, relocate, List.map_set]
    | _ => rfl
  | expression item =>
    cases inner with
    | body lines =>
      cases slot with
      | zero => exact congrArg expression (Expr.relocate_withBody move item lines)
      | succ slot => rfl
    | expression alternative =>
      cases item with
      | ifThen =>
        cases slot with
        | zero => rfl
        | succ slot => simp [withSlot, relocate, Expr.relocate, List.map_set]
      | switch => simp [withSlot, relocate, Expr.relocate, List.map_set]
      | _ => cases slot <;> rfl
    | _ => rfl
  | _ => rfl

end Receiver

end DecisionLang
