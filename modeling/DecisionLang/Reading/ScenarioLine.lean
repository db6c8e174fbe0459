import DecisionLang.Reading.Receiver
import DecisionLang.Reading.Received

/-!
# Lines of scenarios

A scenario names the function it tests or writes one out, and has at most one block of each sort.
-/

namespace DecisionLang.ScenarioLine

/-- A scenario after the line that says which function it tests. -/
def receiveFunction (line : Line) (decl : ScenarioDecl) : Numbered (Received ScenarioDecl) :=
  let invalid := Fault.wrongForm "scenario function" "function Name"
  if decl.function.isSome then line.refuse (.duplicateBlock Keyword.function.spelling)
  else
    match line.tokens with
    | [_] => return .child (decl.openBlock line.start .function) [ScenarioBlock.function.slot]
    | [_, token] =>
      match token.name? with
      | some name =>
        return .leaf { decl with function := some (.named name (line.tokenReference token)) }
      | none => line.refuse invalid
    | _ => line.refuse invalid

/-- A scenario after the line with the one error that it expects. -/
def receiveExpectedError (line : Line) (decl : ScenarioDecl) : Numbered (Received ScenarioDecl) :=
  let keyword := Keyword.expectError.spelling
  let invalid := Fault.wrongForm keyword s!"{keyword} \"message\""
  if decl.expectError.isSome then line.refuse (.duplicateBlock keyword)
  else
    match line.tokens with
    | [_, token] =>
      match token.quoted? with
      | some message =>
        return .leaf { decl with expectError := some ⟨.error, line.start, [message]⟩ }
      | none => line.refuse invalid
    | _ => line.refuse invalid

/-- A scenario after the line that opens a block. -/
def receiveBlock (line : Line) (decl : ScenarioDecl) (block : ScenarioBlock) :
    Numbered (Received ScenarioDecl) := do
  line.expectSingle block.keyword
  if (decl.block? block).isSome then line.refuse (.duplicateBlock block.keyword.spelling)
  else return .child (decl.openBlock line.start block) [block.slot]

/-- A scenario after a line. -/
def receive (line : Line) (decl : ScenarioDecl) : Numbered (Received ScenarioDecl) :=
  match line.tokens with
  | [] => return .leaf decl
  | first :: _ =>
    match first.keyword? with
    | some .function => receiveFunction line decl
    | some .expectError => receiveExpectedError line decl
    | keyword? =>
      match keyword?.bind ScenarioBlock.ofKeyword? with
      | some block => receiveBlock line decl block
      | none => line.refuse (.invalidToken first.text "Scenario block keyword expected.")

/-- A block of assignments after a line. -/
def receiveAssignment (grammar : Grammar) (line : Line) (block : AssignmentBlock) :
    Numbered (Received AssignmentBlock) := do
  match ← grammar.readLine line with
  | .assign mark target value =>
    return .leaf { block with assignments := block.assignments ++ [.assign mark target value] }
  | other => throw ((Fault.wrongForm "assignment" "Name = value").located other.reference)

/-- A block of expected errors after a line. -/
def receiveMessage (line : Line) (block : ExpectedErrors) : Numbered (Received ExpectedErrors) :=
  match line.tokens with
  | [token] =>
    match token.quoted? with
    | some message => return .leaf { block with messages := block.messages ++ [message] }
    | none => line.refuse invalid
  | _ => line.refuse invalid
where
  invalid : Fault := .wrongForm "expected error" "\"message\""

end DecisionLang.ScenarioLine
