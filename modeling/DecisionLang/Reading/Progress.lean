import DecisionLang.Diagnostic.Log
import DecisionLang.Reading.CodeLine
import DecisionLang.Reading.DeclarationLine
import DecisionLang.Reading.ScenarioLine
import DecisionLang.Reading.TableLine

/-!
# Progress of a reading

What has been read so far: the document, the next free expression number, and the log. A line
given to the receiver at a path either changes the document or is refused, which costs one entry
in the log.
-/

namespace DecisionLang

namespace Receiver

/-- The receiver after a line that is meant for it. -/
def receive (grammar : Grammar) (line : Line) : Receiver → Numbered (Received Receiver)
  | document whole => (·.map document) <$> DeclarationLine.receiveRoot line whole
  | function decl => (·.map function) <$> DeclarationLine.receiveFunction line decl
  | definitions block => (·.map definitions) <$> DeclarationLine.receiveVariable grammar line block
  | enumeration decl => (·.map enumeration) <$> DeclarationLine.receiveEnumMember line decl
  | table decl => (·.map table) <$> TableLine.receive grammar line decl
  | record decl => (·.map record) <$> DeclarationLine.receiveMember grammar line decl
  | scenario decl => (·.map scenario) <$> ScenarioLine.receive line decl
  | assignments block => (·.map assignments) <$> ScenarioLine.receiveAssignment grammar line block
  | validationTable item =>
    (·.map validationTable) <$> TableLine.receiveValidation grammar line item
  | expectedErrors block => (·.map expectedErrors) <$> ScenarioLine.receiveMessage line block
  | body expressions => (·.map body) <$> CodeLine.receive grammar line expressions
  | expression item => (·.map expression) <$> CodeLine.receiveBelow grammar line item

/-- The receiver after a line that is meant for the one at a path below it, if there is one. -/
def receiveAt? (grammar : Grammar) (line : Line) :
    SlotPath → Receiver → Option (Numbered (Received Receiver))
  | [], receiver => some (receiver.receive grammar line)
  | slot :: path, receiver => do
    let inner ← receiver.slot? slot
    let reading ← receiveAt? grammar line path inner
    return (·.map (receiver.withSlot slot ·)) <$> reading

end Receiver

structure Progress where
  document : Document := {}
  nextId : Nat := 0
  log : Log := {}

namespace Progress

/-- Name of the root declaration in a slot. -/
def ownerAt (progress : Progress) (slot? : Option Nat) : Option String :=
  slot?.bind fun slot => progress.document.declarations[slot]?.map Declaration.name

def report (progress : Progress) (owner : Option String) (diagnostic : Diagnostic) : Progress :=
  { progress with log := progress.log.reportFor owner diagnostic }

def remark (owner : Option String) (progress : Progress) (remark : Remark) : Progress :=
  progress.report (remark.owner.or owner) remark.diagnostic

/-- Gives a line to the receiver at a path, on behalf of a root declaration. None if there is no
receiver at the path. -/
def take? (progress : Progress) (grammar : Grammar) (line : Line) (path : SlotPath)
    (owner : Option String) : Option (Progress × Answer) :=
  match (Receiver.document progress.document).receiveAt? grammar line path with
  | none => none
  | some reading =>
    match reading.run.run progress.nextId with
    | (.error diagnostic, nextId) =>
      some ({ progress with nextId }.report owner diagnostic, .ignore)
    | (.ok received, nextId) =>
      match received.receiver with
      | .document document =>
        some (received.remarks.foldl (remark owner) { progress with document, nextId },
          received.answer)
      | _ => none

end Progress

end DecisionLang
