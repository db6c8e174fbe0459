import DecisionLang.Proofs.Layout.Expression
import DecisionLang.Proofs.Layout.Slots

/-!
# Lines taken in another place

A receiver in another place takes the lines that the receiver takes, if they are moved with it, and
becomes what the receiver becomes; it refuses the lines that the receiver refuses. One lemma for
each sort of receiver. Main statement: `Receiver.mirrors_receiveAt?`.
-/

namespace DecisionLang

open Numbered

variable {move : Reference → Reference} {columns : Nat → Nat} {line line' : Line}

namespace Received

variable {α β γ δ : Type}

theorem relocate_map {image : α → β} {image' : γ → δ} {f : α → γ} {f' : β → δ}
    (received : Received α) (hf : ∀ receiver, f' (image receiver) = image' (f receiver)) :
    (received.map f).relocate move image' = (received.relocate move image).map f' := by
  simp [relocate, map, hf]

theorem mirrors_map {image : α → β} {image' : γ → δ} {f : α → γ} {f' : β → δ}
    {reading : Numbered (Received α)} {reading' : Numbered (Received β)}
    (h : Mirrors move (relocate move image) reading reading')
    (hf : ∀ receiver, f' (image receiver) = image' (f receiver)) :
    Mirrors move (relocate move image') ((·.map f) <$> reading) ((·.map f') <$> reading') :=
  Numbered.mirrors_map h fun received => (relocate_map received hf).symm

end Received

theorem Line.Mirrors.expectSingle (h : line.Mirrors move columns line') (keyword : Keyword) :
    Numbered.Mirrors move id (line.expectSingle keyword) (line'.expectSingle keyword) := by
  unfold Line.expectSingle
  rw [h.tokens]
  rcases line.tokens with _ | ⟨first, _ | ⟨extra, rest⟩⟩
  · exact mirrors_pure rfl
  · exact mirrors_pure rfl
  · exact h.fail extra _

/-! ### Lines of declarations -/

namespace DeclarationLine

theorem mirrors_name (h : line.Mirrors move columns line') (keyword : Keyword) :
    Mirrors move id (name line keyword) (name line' keyword) := by
  unfold name
  rw [h.tokens]
  rcases line.tokens with _ | ⟨first, _ | ⟨token, _ | ⟨third, rest⟩⟩⟩
  · exact h.refuse _
  · exact h.refuse _
  · simp only [List.map_cons, List.map_nil, Token.name?_shift]
    cases token.name? with
    | none => exact h.refuse _
    | some name => exact mirrors_pure rfl
  · exact h.refuse _

theorem emptyDeclaration?_relocate (keyword : Keyword) (name : String) (reference : Reference) :
    emptyDeclaration? keyword name (move reference) =
      (emptyDeclaration? keyword name reference).map (Declaration.relocate move) := by
  cases keyword <;> rfl

theorem addDeclaration_relocate (comments : List Comment) (document : Document)
    (declaration : Declaration) :
    addDeclaration (document.relocate move comments) (declaration.relocate move) =
      (addDeclaration document declaration).relocate move (Document.relocate move comments) := by
  simp only [addDeclaration, Document.find?_relocate, Option.isSome_map, Received.relocate,
    Declaration.name_relocate, Declaration.reference_relocate]
  split <;> simp [Document.relocate, Remark.relocate, Diagnostic.relocate, Fault.located]

theorem addInclusion_relocate (h : line.Mirrors move columns line') (comments : List Comment)
    (document : Document) :
    addInclusion line' (document.relocate move comments) =
      (addInclusion line document).relocate move (Document.relocate move comments) := by
  have hmalformed : addInclusion.malformed line' (document.relocate move comments) =
      (addInclusion.malformed line document).relocate move (Document.relocate move comments) := by
    simp only [addInclusion.malformed, h.located]
    rfl
  unfold addInclusion
  rw [h.tokens, h.start]
  rcases line.tokens with _ | ⟨first, _ | ⟨file, _ | ⟨third, rest⟩⟩⟩
  · exact hmalformed
  · exact hmalformed
  · simp only [List.map_cons, List.map_nil, Token.quoted?_shift]
    cases file.quoted? with
    | none => exact hmalformed
    | some fileName =>
      simp [Received.leaf, Received.relocate, Document.relocate, Inclusion.relocate]
  · exact hmalformed

theorem mirrors_receiveRoot (h : line.Mirrors move columns line') (comments : List Comment)
    (document : Document) :
    Mirrors move (Received.relocate move (Document.relocate move comments))
      (receiveRoot line document) (receiveRoot line' (document.relocate move comments)) := by
  obtain ⟨first, rest, hfirst⟩ := List.exists_cons_of_ne_nil h.ne_nil
  have hadd := addInclusion_relocate h comments document
  unfold receiveRoot
  rw [h.tokens, hfirst]
  simp only [List.map_cons, Token.keyword?_shift, Token.text_shift]
  split
  · exact mirrors_pure hadd
  · next keyword _ _ =>
    refine mirrors_bind (mirrors_name h keyword) fun name => ?_
    rw [id_eq, h.start, emptyDeclaration?_relocate]
    cases emptyDeclaration? keyword name line.start with
    | none => exact mirrors_pure rfl
    | some declaration => exact mirrors_pure (addDeclaration_relocate comments document _)
  · exact h.refuse _

theorem mirrors_receiveFunction (h : line.Mirrors move columns line') (decl : FunctionDecl) :
    Mirrors move (Received.relocate move (FunctionDecl.relocate move)) (receiveFunction line decl)
      (receiveFunction line' (decl.relocate move)) := by
  obtain ⟨first, rest, hfirst⟩ := List.exists_cons_of_ne_nil h.ne_nil
  unfold receiveFunction
  rw [h.tokens, hfirst]
  simp only [List.map_cons, Token.keyword?_shift, Token.text_shift]
  split
  · exact h.refuse _
  · next block _ =>
    refine mirrors_bind (h.expectSingle _) fun _ => ?_
    rw [FunctionDecl.block?_relocate move [], Option.isSome_map]
    split
    · exact h.refuse _
    · apply mirrors_pure
      rw [h.start, ← FunctionDecl.relocate_openBlock]
      rfl

theorem mirrors_definition (h : line.Mirrors move columns line') (grammar : Grammar) :
    Mirrors move (Definition.relocate move) (definition grammar line)
      (definition grammar line') := by
  refine mirrors_bind (Grammar.mirrors_readLine h grammar) fun expression => ?_
  cases expression with
  | declare mark type name default =>
    apply mirrors_pure
    rw [Expr.relocate?_eq]
    rfl
  | _ => exact mirrors_throw rfl

theorem mirrors_receiveVariable (h : line.Mirrors move columns line') (grammar : Grammar)
    (block : VariableBlock) :
    Mirrors move (Received.relocate move (VariableBlock.relocate move))
      (receiveVariable grammar line block)
      (receiveVariable grammar line' (block.relocate move)) := by
  refine mirrors_bind (mirrors_definition h grammar) fun definition => mirrors_pure ?_
  simp [Received.leaf, Received.relocate, VariableBlock.relocate]

theorem mirrors_receiveMember (h : line.Mirrors move columns line') (grammar : Grammar)
    (decl : RecordDecl) :
    Mirrors move (Received.relocate move (RecordDecl.relocate move))
      (receiveMember grammar line decl) (receiveMember grammar line' (decl.relocate move)) := by
  refine mirrors_bind (mirrors_definition h grammar) fun member => mirrors_pure ?_
  simp [Received.leaf, Received.relocate, RecordDecl.relocate]

theorem enumMember?_shift (tokens : List Token) :
    enumMember? (tokens.map (Token.shift columns)) = enumMember? tokens := by
  rcases tokens with _ | ⟨first, _ | ⟨second, _ | ⟨third, _ | ⟨fourth, rest⟩⟩⟩⟩ <;> rfl

theorem mirrors_receiveEnumMember (h : line.Mirrors move columns line') (decl : EnumDecl) :
    Mirrors move (Received.relocate move (EnumDecl.relocate move)) (receiveEnumMember line decl)
      (receiveEnumMember line' (decl.relocate move)) := by
  unfold receiveEnumMember
  rw [h.tokens, enumMember?_shift]
  split
  · exact h.refuse _
  · next name value _ =>
    rw [EnumDecl.hasMember_relocate]
    split
    · exact h.refuse _
    · apply mirrors_pure
      rw [h.start]
      simp [Received.leaf, Received.relocate, EnumDecl.relocate, EnumMember.relocate]

end DeclarationLine

/-! ### Lines of tables -/

namespace TableLine

theorem mirrors_row (h : line.Mirrors move columns line') (grammar : Grammar)
    (cells : List (List Token)) (expected : Nat) :
    Mirrors move (TableRow.relocate move) (row grammar line cells expected)
      (row grammar line' (cells.map (List.map (Token.shift columns))) expected) := by
  have hcell (cell : List Token) : Mirrors move (Expr.relocate move)
      (if cell.isEmpty then line.refuse .emptyCell else grammar.read line cell)
      (if (cell.map (Token.shift columns)).isEmpty then line'.refuse .emptyCell
        else grammar.read line' (cell.map (Token.shift columns))) := by
    rw [List.isEmpty_map]
    split
    · exact h.refuse _
    · exact Grammar.mirrors_read h grammar cell
  unfold row
  rw [List.length_map]
  split
  · exact h.refuse _
  · refine mirrors_bind (mirrors_mapM cells fun cell _ => hcell cell) fun values => mirrors_pure ?_
    rw [h.start]
    rfl

theorem column?_shift (h : line.Mirrors move columns line') (cell : List Token) :
    column? line' (cell.map (Token.shift columns)) =
      (column? line cell).map (Column.relocate move) := by
  rcases cell with _ | ⟨typeToken, _ | ⟨nameToken, _ | ⟨third, rest⟩⟩⟩
  · rfl
  · rfl
  · simp only [List.map_cons, List.map_nil, column?, Token.writtenType_shift, Token.name?_shift,
      h.tokenReference]
    cases WrittenType.ofToken? typeToken with
    | none => rfl
    | some type =>
      cases nameToken.name? with
      | none => rfl
      | some name =>
        dsimp only [Option.bind_eq_bind, Option.bind_some]
        split <;> rfl
  · rfl

theorem mirrors_column (h : line.Mirrors move columns line') (cell : List Token) :
    Mirrors move (Column.relocate move) (column line cell)
      (column line' (cell.map (Token.shift columns))) := by
  unfold column
  rw [column?_shift h, Token.describe_shift]
  cases column? line cell with
  | some column => exact mirrors_pure rfl
  | none =>
    cases cell with
    | nil => exact mirrors_throw (h.located _)
    | cons first rest => exact h.fail first _

theorem repeatedColumns_relocate (seen : List String) (items : List Column) :
    repeatedColumns seen (items.map (Column.relocate move)) =
      (repeatedColumns seen items).map (Remark.relocate move) := by
  induction items generalizing seen with
  | nil => rfl
  | cons item items ih =>
    simp only [List.map_cons, repeatedColumns]
    rw [show (item.relocate move).name = item.name from rfl, ih]
    split <;> rfl

theorem mirrors_receive (h : line.Mirrors move columns line') (grammar : Grammar)
    (table : TableDecl) :
    Mirrors move (Received.relocate move (TableDecl.relocate move)) (receive grammar line table)
      (receive grammar line' (table.relocate move)) := by
  obtain ⟨name, reference, header, rows⟩ := table
  simp only [receive, TableDecl.relocate, h.tokens, Token.cells?_shift]
  cases Token.cells? line.tokens with
  | none => exact h.refuse _
  | some cells =>
    cases header with
    | none =>
      refine mirrors_bind (mirrors_mapM cells fun cell _ => mirrors_column h cell) fun items => ?_
      apply mirrors_pure
      rw [h.start, repeatedColumns_relocate]
      rfl
    | some header =>
      have hcount : (header.relocate move).columns.length = header.columns.length :=
        List.length_map _
      simp only [Option.map_some, hcount]
      refine mirrors_bind (mirrors_row h grammar cells _) fun row => mirrors_pure ?_
      simp [Received.leaf, Received.relocate, TableDecl.relocate]

theorem validationColumn?_shift (h : line.Mirrors move columns line') (cell : List Token) :
    validationColumn? line' (cell.map (Token.shift columns)) =
      (validationColumn? line cell).map (ValidationColumn.relocate move) := by
  rcases cell with _ | ⟨token, _ | ⟨second, rest⟩⟩
  · rfl
  · simp only [List.map_cons, List.map_nil, validationColumn?, Token.path?_shift,
      Token.name?_shift, h.tokenReference]
    cases (token.path?.map NamePath.ofParts).or (token.name?.map NamePath.ofName) <;> rfl
  · rfl

theorem validationColumns_shift (h : line.Mirrors move columns line') (cells : List (List Token)) :
    (cells.map (List.map (Token.shift columns))).mapM (validationColumn? line') =
      (cells.mapM (validationColumn? line)).map (List.map (ValidationColumn.relocate move)) := by
  induction cells with
  | nil => rfl
  | cons cell cells ih =>
    rw [List.map_cons, List.mapM_cons, List.mapM_cons, validationColumn?_shift h, ih]
    cases validationColumn? line cell with
    | none => rfl
    | some column => cases cells.mapM (validationColumn? line) <;> rfl

theorem mirrors_receiveValidation (h : line.Mirrors move columns line') (grammar : Grammar)
    (table : ValidationTable) :
    Mirrors move (Received.relocate move (ValidationTable.relocate move))
      (receiveValidation grammar line table)
      (receiveValidation grammar line' (table.relocate move)) := by
  obtain ⟨reference, header, rows⟩ := table
  simp only [receiveValidation, ValidationTable.relocate, h.tokens, Token.cells?_shift]
  cases Token.cells? line.tokens with
  | none => exact h.refuse _
  | some cells =>
    cases header with
    | none =>
      simp only [Option.map_some, Option.map_none, validationColumns_shift h]
      cases cells.mapM (validationColumn? line) with
      | none => exact h.refuse _
      | some items => exact mirrors_pure rfl
    | some header =>
      simp only [Option.map_some, List.length_map]
      refine mirrors_bind (mirrors_row h grammar cells _) fun row => mirrors_pure ?_
      simp [Received.leaf, Received.relocate, ValidationTable.relocate]

end TableLine

/-! ### Lines of scenarios -/

namespace ScenarioLine

theorem mirrors_receiveFunction (h : line.Mirrors move columns line') (decl : ScenarioDecl) :
    Mirrors move (Received.relocate move (ScenarioDecl.relocate move)) (receiveFunction line decl)
      (receiveFunction line' (decl.relocate move)) := by
  have hfunction : (decl.relocate move).function.isSome = decl.function.isSome :=
    Option.isSome_map
  unfold receiveFunction
  rw [hfunction, h.tokens]
  dsimp only
  split
  · exact h.refuse _
  · rcases line.tokens with _ | ⟨first, _ | ⟨token, _ | ⟨third, rest⟩⟩⟩
    · exact h.refuse _
    · apply mirrors_pure
      rw [h.start, ← ScenarioDecl.relocate_openBlock]
      rfl
    · simp only [List.map_cons, List.map_nil, Token.name?_shift, h.tokenReference]
      cases token.name? with
      | none => exact h.refuse _
      | some name => exact mirrors_pure rfl
    · exact h.refuse _

theorem mirrors_receiveExpectedError (h : line.Mirrors move columns line') (decl : ScenarioDecl) :
    Mirrors move (Received.relocate move (ScenarioDecl.relocate move))
      (receiveExpectedError line decl) (receiveExpectedError line' (decl.relocate move)) := by
  have hexpected : (decl.relocate move).expectError.isSome = decl.expectError.isSome :=
    Option.isSome_map
  unfold receiveExpectedError
  rw [hexpected, h.tokens]
  dsimp only
  split
  · exact h.refuse _
  · rcases line.tokens with _ | ⟨first, _ | ⟨token, _ | ⟨third, rest⟩⟩⟩
    · exact h.refuse _
    · exact h.refuse _
    · simp only [List.map_cons, List.map_nil, Token.quoted?_shift, h.start]
      cases token.quoted? with
      | none => exact h.refuse _
      | some message => exact mirrors_pure rfl
    · exact h.refuse _

theorem mirrors_receiveBlock (h : line.Mirrors move columns line') (decl : ScenarioDecl)
    (block : ScenarioBlock) :
    Mirrors move (Received.relocate move (ScenarioDecl.relocate move))
      (receiveBlock line decl block) (receiveBlock line' (decl.relocate move) block) := by
  refine mirrors_bind (h.expectSingle _) fun _ => ?_
  rw [ScenarioDecl.block?_relocate move [], Option.isSome_map]
  split
  · exact h.refuse _
  · apply mirrors_pure
    rw [h.start, ← ScenarioDecl.relocate_openBlock]
    rfl

theorem mirrors_receive (h : line.Mirrors move columns line') (decl : ScenarioDecl) :
    Mirrors move (Received.relocate move (ScenarioDecl.relocate move)) (receive line decl)
      (receive line' (decl.relocate move)) := by
  obtain ⟨first, rest, hfirst⟩ := List.exists_cons_of_ne_nil h.ne_nil
  unfold receive
  rw [h.tokens, hfirst]
  simp only [List.map_cons, Token.keyword?_shift, Token.text_shift]
  split
  · exact mirrors_receiveFunction h decl
  · exact mirrors_receiveExpectedError h decl
  · split
    · exact mirrors_receiveBlock h decl _
    · exact h.refuse _

theorem mirrors_receiveAssignment (h : line.Mirrors move columns line') (grammar : Grammar)
    (block : AssignmentBlock) :
    Mirrors move (Received.relocate move (AssignmentBlock.relocate move))
      (receiveAssignment grammar line block)
      (receiveAssignment grammar line' (block.relocate move)) := by
  refine mirrors_bind (Grammar.mirrors_readLine h grammar) fun expression => ?_
  cases expression with
  | assign mark target value =>
    apply mirrors_pure
    simp [Received.leaf, Received.relocate, AssignmentBlock.relocate, Expr.relocate]
  | _ => exact mirrors_throw rfl

theorem mirrors_receiveMessage (h : line.Mirrors move columns line') (block : ExpectedErrors) :
    Mirrors move (Received.relocate move (ExpectedErrors.relocate move)) (receiveMessage line block)
      (receiveMessage line' (block.relocate move)) := by
  unfold receiveMessage
  rw [h.tokens]
  rcases line.tokens with _ | ⟨token, _ | ⟨second, rest⟩⟩
  · exact h.refuse _
  · simp only [List.map_cons, List.map_nil, Token.quoted?_shift]
    cases token.quoted? with
    | none => exact h.refuse _
    | some message => exact mirrors_pure rfl
  · exact h.refuse _

end ScenarioLine

/-! ### Lines of code -/

namespace CodeLine

theorem attach_relocate (body : List Expr) (keyword : Keyword) (alternative : Expr) :
    attach (body.map (Expr.relocate move)) keyword (alternative.relocate move) =
      relocateOutcome move (Received.relocate move (List.map (Expr.relocate move)))
        (attach body keyword alternative) := by
  have herror (fault : Fault) : fault.located (alternative.relocate move).reference =
      (fault.located alternative.reference).relocate move := by
    rw [Expr.reference_relocate]
    rfl
  unfold attach
  rw [List.getLast?_map]
  cases body.getLast? with
  | none => exact congrArg Except.error (herror _)
  | some last =>
    cases last with
    | ifThen mark condition lines alternatives =>
      have hlast : (alternatives.map (Expr.relocate move)).getLast?.any Expr.isOtherwise =
          alternatives.getLast?.any Expr.isOtherwise := by
        rw [List.getLast?_map]
        cases alternatives.getLast? <;> simp
      simp only [Option.map_some, Expr.relocate, Expr.relocateAll_eq, hlast]
      split
      · exact congrArg Except.error (herror _)
      · simp [relocateOutcome, Received.relocate, Received.child, Expr.relocate]
    | _ => exact congrArg Except.error (herror _)

theorem add_relocate (body : List Expr) (expression : Expr) :
    add (body.map (Expr.relocate move)) (expression.relocate move) =
      relocateOutcome move (Received.relocate move (List.map (Expr.relocate move)))
        (add body expression) := by
  have hplain : (if (expression.relocate move).isBlock then
        Except.ok (Received.child (body.map (Expr.relocate move) ++ [expression.relocate move])
          [(body.map (Expr.relocate move)).length])
      else .ok (.leaf (body.map (Expr.relocate move) ++ [expression.relocate move]))) =
      relocateOutcome move (Received.relocate move (List.map (Expr.relocate move)))
        (if expression.isBlock then .ok (.child (body ++ [expression]) [body.length])
        else .ok (.leaf (body ++ [expression]))) := by
    rw [Expr.isBlock_relocate]
    split <;> simp [relocateOutcome, Received.relocate, Received.child, Received.leaf]
  cases expression with
  | elseIf => exact attach_relocate body _ _
  | otherwise => exact attach_relocate body _ _
  | case mark value lines =>
    simp only [add, Expr.relocate, Expr.relocate?_eq, Option.isSome_map]
    rfl
  | _ => exact hplain

theorem addCase_relocate (cases : List Expr) (expression : Expr) :
    addCase (cases.map (Expr.relocate move)) (expression.relocate move) =
      relocateOutcome move (Received.relocate move (List.map (Expr.relocate move)))
        (addCase cases expression) := by
  cases expression with
  | case => simp [addCase, Expr.relocate, relocateOutcome, Received.relocate, Received.child]
  | _ => rfl

theorem mirrors_receive (h : line.Mirrors move columns line') (grammar : Grammar)
    (body : List Expr) :
    Mirrors move (Received.relocate move (List.map (Expr.relocate move)))
      (receive grammar line body) (receive grammar line' (body.map (Expr.relocate move))) :=
  mirrors_bind (Grammar.mirrors_readLine h grammar) fun expression =>
    mirrors_ofExcept (add_relocate body expression)

theorem mirrors_receiveBelow (h : line.Mirrors move columns line') (grammar : Grammar)
    (expression : Expr) :
    Mirrors move (Received.relocate move (Expr.relocate move))
      (receiveBelow grammar line expression)
      (receiveBelow grammar line' (expression.relocate move)) := by
  have hrefuse (expression : Expr) : Mirrors move
      (Received.relocate move (Expr.relocate move)) (line.refuse (.noBody expression.text))
      (line'.refuse (.noBody (expression.relocate move).text)) := by
    rw [Expr.text_relocate]
    exact h.refuse _
  have hbody := Expr.body?_relocate move expression
  unfold receiveBelow
  cases hlines : expression.body? with
  | some body =>
    rw [hlines] at hbody
    rw [hbody]
    refine mirrors_bind (mirrors_receive h grammar body) fun received => mirrors_pure ?_
    simp [Received.relocate, Received.map, Received.within]
  | none =>
    rw [hlines] at hbody
    rw [hbody]
    cases expression with
    | switch mark subject cases =>
      simp only [Option.map_none, Expr.relocate, Expr.relocateAll_eq]
      refine mirrors_bind (Grammar.mirrors_readLine h grammar) fun branch => ?_
      refine mirrors_bind (mirrors_ofExcept (addCase_relocate cases branch)) fun received => ?_
      apply mirrors_pure
      simp [Received.relocate, Received.map, Expr.relocate]
    | _ => exact hrefuse _

end CodeLine

/-! ### Receivers -/

namespace Receiver

theorem mirrors_receive (h : line.Mirrors move columns line') (grammar : Grammar)
    (comments : List Comment) (receiver : Receiver) :
    Numbered.Mirrors move (Received.relocate move (relocate move comments))
      (receiver.receive grammar line)
      ((receiver.relocate move comments).receive grammar line') := by
  cases receiver with
  | document whole =>
    exact Received.mirrors_map (DeclarationLine.mirrors_receiveRoot h comments whole) fun _ => rfl
  | function decl =>
    exact Received.mirrors_map (DeclarationLine.mirrors_receiveFunction h decl) fun _ => rfl
  | definitions block =>
    exact Received.mirrors_map (DeclarationLine.mirrors_receiveVariable h grammar block)
      fun _ => rfl
  | enumeration decl =>
    exact Received.mirrors_map (DeclarationLine.mirrors_receiveEnumMember h decl) fun _ => rfl
  | table decl => exact Received.mirrors_map (TableLine.mirrors_receive h grammar decl) fun _ => rfl
  | record decl =>
    exact Received.mirrors_map (DeclarationLine.mirrors_receiveMember h grammar decl) fun _ => rfl
  | scenario decl => exact Received.mirrors_map (ScenarioLine.mirrors_receive h decl) fun _ => rfl
  | assignments block =>
    exact Received.mirrors_map (ScenarioLine.mirrors_receiveAssignment h grammar block) fun _ => rfl
  | validationTable item =>
    exact Received.mirrors_map (TableLine.mirrors_receiveValidation h grammar item) fun _ => rfl
  | expectedErrors block =>
    exact Received.mirrors_map (ScenarioLine.mirrors_receiveMessage h block) fun _ => rfl
  | body expressions =>
    exact Received.mirrors_map (CodeLine.mirrors_receive h grammar expressions) fun _ => rfl
  | expression item =>
    exact Received.mirrors_map (CodeLine.mirrors_receiveBelow h grammar item) fun _ => rfl

/-- The receiver at a path takes the same lines wherever it stands, if there is one. -/
theorem mirrors_receiveAt? (h : line.Mirrors move columns line') (grammar : Grammar)
    (comments : List Comment) (path : SlotPath) (receiver : Receiver) :
    Option.Rel (Numbered.Mirrors move (Received.relocate move (relocate move comments)))
      (receiveAt? grammar line path receiver)
      (receiveAt? grammar line' path (receiver.relocate move comments)) := by
  induction path generalizing receiver with
  | nil => exact .some (mirrors_receive h grammar comments receiver)
  | cons slot path ih =>
    simp only [receiveAt?, slot?_relocate]
    cases receiver.slot? slot with
    | none => exact .none
    | some inner =>
      have hinner := ih inner
      simp only [Option.bind_eq_bind, Option.map_some, Option.bind_some]
      generalize receiveAt? grammar line path inner = reading at hinner
      generalize receiveAt? grammar line' path (inner.relocate move comments) = reading' at hinner
      cases hinner with
      | none => exact .none
      | some hreading =>
        exact .some (Received.mirrors_map hreading fun below =>
          (relocate_withSlot move comments receiver slot below).symm)

end Receiver

end DecisionLang
