import DecisionLang.Reading.Source
import Mathlib.Data.List.Basic

/-!
# References moved

What is read from a source carries the places it was read from. `relocate` moves these places by
some function and keeps everything else: numbers, names, values, messages, owners. Reading never
looks at a place, so nothing that it asks about what has been read changes; the lemmas here say so,
one for each question. Moving twice is moving once (`relocate_relocate`).

The comments of a document are no part of this: a document is relocated together with whatever
comments it is to have.
-/

namespace DecisionLang

variable (move further : Reference → Reference)

/-! ### Expressions -/

def Mark.relocate (mark : Mark) : Mark := { mark with reference := move mark.reference }

def ColumnName.relocate (name : ColumnName) : ColumnName :=
  { name with reference := move name.reference }

namespace Expr

mutual

def relocate : Expr → Expr
  | literal mark value => literal (mark.relocate move) value
  | name mark word => name (mark.relocate move) word
  | path mark names => path (mark.relocate move) names
  | binary mark left operator right =>
    binary (mark.relocate move) left.relocate operator right.relocate
  | assign mark target value => assign (mark.relocate move) target.relocate value.relocate
  | declare mark type declared default =>
    declare (mark.relocate move) type declared (relocate? default)
  | group mark inner => group (mark.relocate move) inner.relocate
  | indexed mark table index => indexed (mark.relocate move) table index.relocate
  | make mark making type typeReference =>
    make (mark.relocate move) making type (move typeReference)
  | extract mark object => extract (mark.relocate move) object.relocate
  | lookUp mark function table tableReference discriminator value discriminatorColumn searchColumn
      resultColumn =>
    lookUp (mark.relocate move) function table (move tableReference) (relocate? discriminator)
      value.relocate (discriminatorColumn.map (ColumnName.relocate move))
      (searchColumn.relocate move) (resultColumn.map (ColumnName.relocate move))
  | call mark function arguments => call (mark.relocate move) function (relocateAll arguments)
  | ifThen mark condition body alternatives =>
    ifThen (mark.relocate move) condition.relocate (relocateAll body) (relocateAll alternatives)
  | elseIf mark condition body =>
    elseIf (mark.relocate move) condition.relocate (relocateAll body)
  | otherwise mark body => otherwise (mark.relocate move) (relocateAll body)
  | switch mark subject cases => switch (mark.relocate move) subject.relocate (relocateAll cases)
  | case mark value body => case (mark.relocate move) (relocate? value) (relocateAll body)
  | spread mark => spread (mark.relocate move)
  | spreadAssign mark invoked => spreadAssign (mark.relocate move) invoked.relocate

def relocateAll : List Expr → List Expr
  | [] => []
  | expression :: rest => expression.relocate :: relocateAll rest

def relocate? : Option Expr → Option Expr
  | none => none
  | some expression => some expression.relocate

end

@[simp] theorem relocateAll_eq (expressions : List Expr) :
    relocateAll move expressions = expressions.map (relocate move) := by
  induction expressions with
  | nil => rfl
  | cons expression rest ih => rw [relocateAll, ih, List.map_cons]

@[simp] theorem relocate?_eq (expression? : Option Expr) :
    relocate? move expression? = expression?.map (relocate move) := by
  cases expression? <;> rfl

@[simp] theorem mark_relocate (expression : Expr) :
    (expression.relocate move).mark = expression.mark.relocate move := by
  cases expression <;> rfl

@[simp] theorem reference_relocate (expression : Expr) :
    (expression.relocate move).reference = move expression.reference := by
  rw [reference, mark_relocate]
  rfl

@[simp] theorem isBinary_relocate (expression : Expr) :
    (expression.relocate move).isBinary = expression.isBinary := by
  cases expression <;> rfl

@[simp] theorem isBlock_relocate (expression : Expr) :
    (expression.relocate move).isBlock = expression.isBlock := by
  cases expression <;> rfl

@[simp] theorem isOtherwise_relocate (expression : Expr) :
    (expression.relocate move).isOtherwise = expression.isOtherwise := by
  cases expression <;> rfl

@[simp] theorem body?_relocate (expression : Expr) :
    (expression.relocate move).body? = expression.body?.map (List.map (relocate move)) := by
  cases expression <;> simp [relocate, body?]

@[simp] theorem relocate_withBody (expression : Expr) (body : List Expr) :
    (expression.withBody body).relocate move =
      (expression.relocate move).withBody (body.map (relocate move)) := by
  cases expression <;> simp [relocate, withBody]

mutual

@[simp] theorem text_relocate (expression : Expr) :
    (expression.relocate move).text = expression.text := by
  cases expression with
  | literal | name | path | make | otherwise | spread => rfl
  | binary _ left _ right | assign _ left right =>
    simp only [relocate, text, text_relocate left, text_relocate right]
  | group _ inner => simp only [relocate, text, text_relocate inner, isBinary_relocate]
  | indexed _ _ inner | extract _ inner | ifThen _ inner | elseIf _ inner | switch _ inner
  | spreadAssign _ inner => simp only [relocate, text, text_relocate inner]
  | declare _ _ _ default => simp only [relocate, text, texts?_relocate default]
  | lookUp _ _ _ _ discriminator value discriminatorColumn _ resultColumn =>
    have hcolumn (column? : Option ColumnName) :
        (column?.map (ColumnName.relocate move)).map ColumnName.text =
          column?.map ColumnName.text := by
      cases column? <;> rfl
    simp only [relocate, text, texts?_relocate discriminator, text_relocate value, hcolumn]
    rfl
  | call _ _ arguments => simp only [relocate, text, texts_relocate arguments]
  | case _ value _ => simp only [relocate, text, texts?_relocate value]

theorem texts_relocate (expressions : List Expr) :
    texts (relocateAll move expressions) = texts expressions := by
  cases expressions with
  | nil => rfl
  | cons expression rest =>
    simp only [relocateAll, texts, text_relocate expression, texts_relocate rest]

theorem texts?_relocate (expression? : Option Expr) :
    texts? (relocate? move expression?) = texts? expression? := by
  cases expression? with
  | none => rfl
  | some expression => simp only [relocate?, texts?, text_relocate expression]

end

mutual

theorem relocate_relocate (expression : Expr) :
    (expression.relocate move).relocate further = expression.relocate (further ∘ move) := by
  cases expression with
  | literal | name | path | make | spread => rfl
  | binary _ left _ right | assign _ left right =>
    simp only [relocate, relocate_relocate left, relocate_relocate right]
    rfl
  | group _ inner | indexed _ _ inner | extract _ inner | spreadAssign _ inner =>
    simp only [relocate, relocate_relocate inner]
    rfl
  | declare _ _ _ default =>
    simp only [relocate, relocate?_relocate default]
    rfl
  | lookUp _ _ _ _ discriminator value discriminatorColumn _ resultColumn =>
    simp only [relocate, relocate?_relocate discriminator, relocate_relocate value,
      Option.map_map]
    rfl
  | call _ _ arguments =>
    simp only [relocate, relocateAll_relocate arguments]
    rfl
  | ifThen _ condition body alternatives =>
    simp only [relocate, relocate_relocate condition, relocateAll_relocate body,
      relocateAll_relocate alternatives]
    rfl
  | elseIf _ condition body | switch _ condition body =>
    simp only [relocate, relocate_relocate condition, relocateAll_relocate body]
    rfl
  | otherwise _ body =>
    simp only [relocate, relocateAll_relocate body]
    rfl
  | case _ value body =>
    simp only [relocate, relocate?_relocate value, relocateAll_relocate body]
    rfl

theorem relocateAll_relocate (expressions : List Expr) :
    relocateAll further (relocateAll move expressions) =
      relocateAll (further ∘ move) expressions := by
  cases expressions with
  | nil => rfl
  | cons expression rest =>
    simp only [relocateAll, relocate_relocate expression, relocateAll_relocate rest]

theorem relocate?_relocate (expression? : Option Expr) :
    relocate? further (relocate? move expression?) = relocate? (further ∘ move) expression? := by
  cases expression? with
  | none => rfl
  | some expression => simp only [relocate?, relocate_relocate expression]

end

end Expr

/-! ### Declarations -/

def Definition.relocate (definition : Definition) : Definition :=
  { definition with
    reference := move definition.reference
    default := definition.default.map (Expr.relocate move) }

def VariableBlock.relocate (block : VariableBlock) : VariableBlock :=
  ⟨move block.reference, block.definitions.map (Definition.relocate move)⟩

def CodeBlock.relocate (block : CodeBlock) : CodeBlock :=
  ⟨move block.reference, block.expressions.map (Expr.relocate move)⟩

def FunctionDecl.relocate (decl : FunctionDecl) : FunctionDecl where
  name := decl.name
  reference := move decl.reference
  parameters := decl.parameters.map (VariableBlock.relocate move)
  results := decl.results.map (VariableBlock.relocate move)
  code := decl.code.map (CodeBlock.relocate move)

def EnumMember.relocate (member : EnumMember) : EnumMember :=
  { member with reference := move member.reference }

def EnumDecl.relocate (decl : EnumDecl) : EnumDecl where
  name := decl.name
  reference := move decl.reference
  members := decl.members.map (EnumMember.relocate move)

def Column.relocate (column : Column) : Column :=
  { column with reference := move column.reference }

def TableHeader.relocate (header : TableHeader) : TableHeader :=
  ⟨move header.reference, header.columns.map (Column.relocate move)⟩

def TableRow.relocate (row : TableRow) : TableRow :=
  ⟨move row.reference, row.values.map (Expr.relocate move)⟩

def TableDecl.relocate (decl : TableDecl) : TableDecl where
  name := decl.name
  reference := move decl.reference
  header := decl.header.map (TableHeader.relocate move)
  rows := decl.rows.map (TableRow.relocate move)

def RecordDecl.relocate (decl : RecordDecl) : RecordDecl where
  name := decl.name
  reference := move decl.reference
  members := decl.members.map (Definition.relocate move)

def TestedFunction.relocate : TestedFunction → TestedFunction
  | named name reference => named name (move reference)
  | inline decl => inline (decl.relocate move)

def AssignmentBlock.relocate (block : AssignmentBlock) : AssignmentBlock :=
  ⟨move block.reference, block.assignments.map (Expr.relocate move)⟩

def ValidationColumn.relocate (column : ValidationColumn) : ValidationColumn :=
  { column with reference := move column.reference }

def ValidationTable.relocate (table : ValidationTable) : ValidationTable where
  reference := move table.reference
  header := table.header.map (List.map (ValidationColumn.relocate move))
  rows := table.rows.map (TableRow.relocate move)

def ExpectedErrors.relocate (block : ExpectedErrors) : ExpectedErrors :=
  { block with reference := move block.reference }

def ScenarioDecl.relocate (decl : ScenarioDecl) : ScenarioDecl where
  name := decl.name
  reference := move decl.reference
  function := decl.function.map (TestedFunction.relocate move)
  enumeration := decl.enumeration.map (EnumDecl.relocate move)
  table := decl.table.map (TableDecl.relocate move)
  parameters := decl.parameters.map (AssignmentBlock.relocate move)
  results := decl.results.map (AssignmentBlock.relocate move)
  validationTable := decl.validationTable.map (ValidationTable.relocate move)
  expectError := decl.expectError.map (ExpectedErrors.relocate move)
  expectErrors := decl.expectErrors.map (ExpectedErrors.relocate move)
  expectComponentErrors := decl.expectComponentErrors.map (ExpectedErrors.relocate move)
  expectExecutionErrors := decl.expectExecutionErrors.map (ExpectedErrors.relocate move)

def Declaration.relocate : Declaration → Declaration
  | function decl => function (decl.relocate move)
  | enumeration decl => enumeration (decl.relocate move)
  | table decl => table (decl.relocate move)
  | record decl => record (decl.relocate move)
  | scenario decl => scenario (decl.relocate move)

def Inclusion.relocate (inclusion : Inclusion) : Inclusion :=
  { inclusion with reference := move inclusion.reference }

def Document.relocate (comments : List Comment) (document : Document) : Document where
  declarations := document.declarations.map (Declaration.relocate move)
  inclusions := document.inclusions.map (Inclusion.relocate move)
  comments := comments

/-! ### Faults and the log -/

def Diagnostic.relocate (diagnostic : Diagnostic) : Diagnostic :=
  { diagnostic with reference := move diagnostic.reference }

def Remark.relocate (remark : Remark) : Remark :=
  { remark with diagnostic := remark.diagnostic.relocate move }

def LogEntry.relocate (entry : LogEntry) : LogEntry :=
  { entry with reference := entry.reference.map move }

def Log.relocate (log : Log) : Log :=
  { log with entries := log.entries.map (LogEntry.relocate move) }

/-! ### Readings -/

def Receiver.relocate (comments : List Comment) : Receiver → Receiver
  | document whole => document (whole.relocate move comments)
  | function decl => function (decl.relocate move)
  | definitions block => definitions (block.relocate move)
  | enumeration decl => enumeration (decl.relocate move)
  | table decl => table (decl.relocate move)
  | record decl => record (decl.relocate move)
  | scenario decl => scenario (decl.relocate move)
  | assignments block => assignments (block.relocate move)
  | validationTable item => validationTable (item.relocate move)
  | expectedErrors block => expectedErrors (block.relocate move)
  | body expressions => body (expressions.map (Expr.relocate move))
  | expression item => expression (item.relocate move)

/-- A receiver after a line, given what the receiver becomes. -/
def Received.relocate {α β : Type} (image : α → β) (received : Received α) : Received β :=
  ⟨image received.receiver, received.answer, received.remarks.map (Remark.relocate move)⟩

def Progress.relocate (comments : List Comment) (progress : Progress) : Progress where
  document := progress.document.relocate move comments
  nextId := progress.nextId
  log := progress.log.relocate move

def SourceReading.relocate (comments : List Comment) (reading : SourceReading) : SourceReading :=
  ⟨reading.progress.relocate move comments, reading.indentation⟩

/-! ### Moving twice -/

@[simp] theorem Expr.relocate_comp :
    Expr.relocate further ∘ Expr.relocate move = Expr.relocate (further ∘ move) :=
  funext (Expr.relocate_relocate move further)

@[simp] theorem Definition.relocate_comp :
    Definition.relocate further ∘ Definition.relocate move = Definition.relocate (further ∘ move) :=
  funext fun _ => by simp [relocate]

@[simp] theorem VariableBlock.relocate_comp :
    VariableBlock.relocate further ∘ VariableBlock.relocate move =
      VariableBlock.relocate (further ∘ move) :=
  funext fun _ => by simp [relocate]

@[simp] theorem CodeBlock.relocate_comp :
    CodeBlock.relocate further ∘ CodeBlock.relocate move = CodeBlock.relocate (further ∘ move) :=
  funext fun _ => by simp [relocate]

@[simp] theorem FunctionDecl.relocate_comp :
    FunctionDecl.relocate further ∘ FunctionDecl.relocate move =
      FunctionDecl.relocate (further ∘ move) :=
  funext fun _ => by simp [relocate]

@[simp] theorem EnumMember.relocate_comp :
    EnumMember.relocate further ∘ EnumMember.relocate move = EnumMember.relocate (further ∘ move) :=
  funext fun _ => by simp [relocate]

@[simp] theorem EnumDecl.relocate_comp :
    EnumDecl.relocate further ∘ EnumDecl.relocate move = EnumDecl.relocate (further ∘ move) :=
  funext fun _ => by simp [relocate]

@[simp] theorem Column.relocate_comp :
    Column.relocate further ∘ Column.relocate move = Column.relocate (further ∘ move) :=
  funext fun _ => by simp [relocate]

@[simp] theorem TableHeader.relocate_comp :
    TableHeader.relocate further ∘ TableHeader.relocate move =
      TableHeader.relocate (further ∘ move) :=
  funext fun _ => by simp [relocate]

@[simp] theorem TableRow.relocate_comp :
    TableRow.relocate further ∘ TableRow.relocate move = TableRow.relocate (further ∘ move) :=
  funext fun _ => by simp [relocate]

@[simp] theorem TableDecl.relocate_comp :
    TableDecl.relocate further ∘ TableDecl.relocate move = TableDecl.relocate (further ∘ move) :=
  funext fun _ => by simp [relocate]

@[simp] theorem RecordDecl.relocate_comp :
    RecordDecl.relocate further ∘ RecordDecl.relocate move = RecordDecl.relocate (further ∘ move) :=
  funext fun _ => by simp [relocate]

@[simp] theorem TestedFunction.relocate_comp :
    TestedFunction.relocate further ∘ TestedFunction.relocate move =
      TestedFunction.relocate (further ∘ move) := by
  funext function
  cases function with
  | named => rfl
  | inline decl => exact congrArg inline (congrFun (FunctionDecl.relocate_comp move further) decl)

@[simp] theorem AssignmentBlock.relocate_comp :
    AssignmentBlock.relocate further ∘ AssignmentBlock.relocate move =
      AssignmentBlock.relocate (further ∘ move) :=
  funext fun _ => by simp [relocate]

@[simp] theorem ValidationColumn.relocate_comp :
    ValidationColumn.relocate further ∘ ValidationColumn.relocate move =
      ValidationColumn.relocate (further ∘ move) :=
  funext fun _ => by simp [relocate]

@[simp] theorem ValidationTable.relocate_comp :
    ValidationTable.relocate further ∘ ValidationTable.relocate move =
      ValidationTable.relocate (further ∘ move) :=
  funext fun _ => by simp [relocate, List.map_comp_map]

@[simp] theorem ExpectedErrors.relocate_comp :
    ExpectedErrors.relocate further ∘ ExpectedErrors.relocate move =
      ExpectedErrors.relocate (further ∘ move) :=
  funext fun _ => by simp [relocate]

@[simp] theorem ScenarioDecl.relocate_comp :
    ScenarioDecl.relocate further ∘ ScenarioDecl.relocate move =
      ScenarioDecl.relocate (further ∘ move) :=
  funext fun _ => by simp [relocate]

@[simp] theorem Declaration.relocate_comp :
    Declaration.relocate further ∘ Declaration.relocate move =
      Declaration.relocate (further ∘ move) :=
  funext fun declaration => by
    cases declaration with
    | function decl => exact congrArg function (congrFun (FunctionDecl.relocate_comp _ _) decl)
    | enumeration decl => exact congrArg enumeration (congrFun (EnumDecl.relocate_comp _ _) decl)
    | table decl => exact congrArg table (congrFun (TableDecl.relocate_comp _ _) decl)
    | record decl => exact congrArg record (congrFun (RecordDecl.relocate_comp _ _) decl)
    | scenario decl => exact congrArg scenario (congrFun (ScenarioDecl.relocate_comp _ _) decl)

@[simp] theorem Inclusion.relocate_comp :
    Inclusion.relocate further ∘ Inclusion.relocate move = Inclusion.relocate (further ∘ move) :=
  funext fun _ => by simp [relocate]

@[simp] theorem LogEntry.relocate_comp :
    LogEntry.relocate further ∘ LogEntry.relocate move = LogEntry.relocate (further ∘ move) :=
  funext fun _ => by simp [relocate]

theorem Progress.relocate_relocate (comments later : List Comment) (progress : Progress) :
    (progress.relocate move comments).relocate further later =
      progress.relocate (further ∘ move) later := by
  simp [relocate, Document.relocate, Log.relocate]

theorem SourceReading.relocate_relocate (comments later : List Comment) (reading : SourceReading) :
    (reading.relocate move comments).relocate further later =
      reading.relocate (further ∘ move) later := by
  rw [relocate, relocate, relocate, Progress.relocate_relocate]

end DecisionLang
