import DecisionLang.Reading.Receiver
import DecisionLang.Reading.Received

/-!
# Lines of declarations

Lines at the outermost depth, which introduce declarations and inclusions, and the lines of
functions, enumerations and record types. Lines without tokens are passed over.
-/

namespace DecisionLang.DeclarationLine

/-- The name in a line of the form `keyword Name`. -/
def name (line : Line) (keyword : Keyword) : Numbered String :=
  let invalid := Fault.wrongForm s!"{keyword.spelling} declaration" s!"{keyword.spelling} Name"
  match line.tokens with
  | [_, token] => token.name?.elim (line.refuse invalid) fun name => return name
  | _ => line.refuse invalid

/-- An empty declaration of the sort that a word introduces. -/
def emptyDeclaration? (keyword : Keyword) (name : String) (reference : Reference) :
    Option Declaration :=
  match keyword with
  | .function => some (.function (FunctionDecl.empty name reference))
  | .enumeration => some (.enumeration (EnumDecl.empty name reference))
  | .table => some (.table (TableDecl.empty name reference))
  | .record => some (.record (RecordDecl.empty name reference))
  | .scenario => some (.scenario (ScenarioDecl.empty name reference))
  | _ => none

/-- Adds a declaration. One whose name is taken is added too, with a remark under its name. -/
def addDeclaration (document : Document) (declaration : Declaration) : Received Document :=
  let remarks :=
    if (document.find? declaration.name).isSome then
      [⟨(Fault.duplicateDeclaration declaration.name).located declaration.reference,
        some declaration.name⟩]
    else []
  ⟨{ document with declarations := document.declarations ++ [declaration] },
    .child [document.declarations.length], remarks⟩

/-- Adds an inclusion. A malformed one is a remark, since no lines belong below it either way. -/
def addInclusion (line : Line) (document : Document) : Received Document :=
  match line.tokens with
  | [_, file] =>
    match file.quoted? with
    | some fileName =>
      .leaf { document with
        inclusions := document.inclusions ++ [⟨fileName, line.start, false⟩] }
    | none => malformed
  | _ => malformed
where
  malformed : Received Document :=
    ⟨document, .leaf, [⟨(Fault.wrongForm "include" "include \"file\"").located line.start, none⟩]⟩

/-- A document after a line at the outermost depth. -/
def receiveRoot (line : Line) (document : Document) : Numbered (Received Document) :=
  match line.tokens with
  | [] => return .leaf document
  | first :: _ =>
    match first.keyword?.filter Keyword.roots.contains with
    | some .inclusion => return addInclusion line document
    | some keyword => do
      let name ← name line keyword
      match emptyDeclaration? keyword name line.start with
      | some declaration => return addDeclaration document declaration
      | none => return .leaf document
    | none => line.refuse (.invalidToken first.text "Keyword expected.")

/-- A function after a line. -/
def receiveFunction (line : Line) (decl : FunctionDecl) : Numbered (Received FunctionDecl) :=
  match line.tokens with
  | [] => return .leaf decl
  | first :: _ =>
    match first.keyword?.bind FunctionBlock.ofKeyword? with
    | none =>
      line.refuse (.invalidToken first.text "Expected 'parameters', 'results' or 'code'.")
    | some block => do
      line.expectSingle block.keyword
      if (decl.block? block).isSome then line.refuse (.duplicateBlock block.keyword.spelling)
      else return .child (decl.openBlock line.start block) [block.slot]

/-- A line of the form `Type Name`, possibly with a default value. -/
def definition (grammar : Grammar) (line : Line) : Numbered Definition := do
  match ← grammar.readLine line with
  | .declare mark type name default => return ⟨mark.id, name, mark.reference, type, default⟩
  | other =>
    throw ((Fault.wrongForm "variable definition" "Type Name = defaultValue").located
      other.reference)

/-- A block of parameters or results after a line. -/
def receiveVariable (grammar : Grammar) (line : Line) (block : VariableBlock) :
    Numbered (Received VariableBlock) := do
  let variable_ ← definition grammar line
  return .leaf { block with definitions := block.definitions ++ [variable_] }

/-- A record type after a line. -/
def receiveMember (grammar : Grammar) (line : Line) (decl : RecordDecl) :
    Numbered (Received RecordDecl) := do
  let member ← definition grammar line
  return .leaf { decl with members := decl.members ++ [member] }

/-- A member of an enumeration, with or without a whole number. -/
def enumMember? (tokens : List Token) : Option (String × Option Int) :=
  match tokens with
  | [nameToken] => nameToken.name?.map fun name => (name, none)
  | [nameToken, sign, value] =>
    match nameToken.name?, sign.isOperator .assignment, value.kind with
    | some name, true, .number number => number.toWhole?.map fun whole => (name, some whole)
    | _, _, _ => none
  | _ => none

/-- An enumeration after a line. -/
def receiveEnumMember (line : Line) (decl : EnumDecl) : Numbered (Received EnumDecl) :=
  match enumMember? line.tokens with
  | none => line.refuse (.wrongForm "enum member" "Name = 1")
  | some (name, value) =>
    if decl.hasMember name then line.refuse (.duplicateName "enum member" name)
    else return .leaf { decl with members := decl.members ++ [⟨name, line.start, value⟩] }

end DecisionLang.DeclarationLine
