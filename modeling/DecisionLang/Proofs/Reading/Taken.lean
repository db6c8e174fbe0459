import DecisionLang.Proofs.Reading.Expression
import DecisionLang.Reading.Progress

/-!
# Lines that are taken

`Receiver.Accepts` has one case for each kind of line that a receiver takes itself, and
`Receiver.Takes` follows the path to the receiver that does. What lines do to a document is derived
from them by induction on the path. Main statements: `Receiver.takes_of_receiveAt?` and, for lines
that are refused, `Receiver.spends_of_receiveAt?`.
-/

namespace DecisionLang

open Numbered

/-- A line that starts like an inclusion but does not have the form `include "file"`. -/
structure Line.IsMalformedInclusion (line : Line) : Prop where
  keyword : (line.tokens.head?.bind Token.keyword?) = some .inclusion
  form : ∀ first file, line.tokens = [first, file] → file.quoted? = none

/-- A line taken by a receiver itself, with the next expression number before and after it. -/
inductive Receiver.Accepts (grammar : Grammar) (line : Line) :
    Receiver → Nat → Received Receiver → Nat → Prop
  | skip {receiver next} (hempty : line.tokens = []) :
      Accepts grammar line receiver next (.leaf receiver) next
  | malformedInclusion {document next} (hline : line.IsMalformedInclusion) :
      Accepts grammar line (.document document) next
        ((DeclarationLine.addInclusion.malformed line document).map .document) next
  | inclusion {document next fileName} :
      Accepts grammar line (.document document) next
        (.leaf (.document { document with
          inclusions := document.inclusions ++ [⟨fileName, line.start, false⟩] })) next
  | declaration {document keyword name declaration next}
      (hname : (DeclarationLine.name line keyword).Gives next name next)
      (hsort : DeclarationLine.emptyDeclaration? keyword name line.start = some declaration) :
      Accepts grammar line (.document document) next
        ((DeclarationLine.addDeclaration document declaration).map .document) next
  | functionBlock {decl block next} (hnew : decl.block? block = none) :
      Accepts grammar line (.function decl) next
        (.child (.function (decl.openBlock line.start block)) [block.slot]) next
  | definition {block mark type name default next after}
      (hread : (grammar.readLine line).Gives next (.declare mark type name default) after) :
      Accepts grammar line (.definitions block) next
        (.leaf (.definitions { block with
          definitions := block.definitions ++
            [⟨mark.id, name, mark.reference, type, default⟩] })) after
  | member {decl mark type name default next after}
      (hread : (grammar.readLine line).Gives next (.declare mark type name default) after) :
      Accepts grammar line (.record decl) next
        (.leaf (.record { decl with
          members := decl.members ++ [⟨mark.id, name, mark.reference, type, default⟩] })) after
  | enumMember {decl name value next}
      (hmember : DeclarationLine.enumMember? line.tokens = some (name, value))
      (hnew : decl.hasMember name = false) :
      Accepts grammar line (.enumeration decl) next
        (.leaf (.enumeration { decl with
          members := decl.members ++ [⟨name, line.start, value⟩] })) next
  | tableHeader {table cells columns next} (hcells : Token.cells? line.tokens = some cells)
      (hheader : table.header = none)
      (hcolumns : InOrder (fun cell => (TableLine.column line cell).Gives) cells next columns
        next) :
      Accepts grammar line (.table table) next
        ⟨.table { table with header := some ⟨line.start, columns⟩ }, .leaf,
          TableLine.repeatedColumns [] columns⟩ next
  | tableRow {table header cells values next after}
      (hcells : Token.cells? line.tokens = some cells) (hheader : table.header = some header)
      (hlength : cells.length = header.columns.length)
      (hvalues : InOrder (fun cell => (grammar.read line cell).Gives) cells next values after) :
      Accepts grammar line (.table table) next
        (.leaf (.table { table with rows := table.rows ++ [⟨line.start, values⟩] })) after
  | testedFunction {decl name token next} (hnew : decl.function = none) :
      Accepts grammar line (.scenario decl) next
        (.leaf (.scenario { decl with
          function := some (.named name (line.tokenReference token)) })) next
  | expectedError {decl message next} (hnew : decl.expectError = none) :
      Accepts grammar line (.scenario decl) next
        (.leaf (.scenario { decl with
          expectError := some ⟨.error, line.start, [message]⟩ })) next
  | scenarioBlock {decl block next} (hnew : decl.block? block = none)
      (hfunction : block = .function → decl.function = none) :
      Accepts grammar line (.scenario decl) next
        (.child (.scenario (decl.openBlock line.start block)) [block.slot]) next
  | assignment {block mark target value next after}
      (hread : (grammar.readLine line).Gives next (.assign mark target value) after) :
      Accepts grammar line (.assignments block) next
        (.leaf (.assignments { block with
          assignments := block.assignments ++ [.assign mark target value] })) after
  | validationHeader {table cells columns next} (hcells : Token.cells? line.tokens = some cells)
      (hheader : table.header = none)
      (hcolumns : cells.mapM (TableLine.validationColumn? line) = some columns) :
      Accepts grammar line (.validationTable table) next
        (.leaf (.validationTable { table with header := some columns })) next
  | validationRow {table header cells values next after}
      (hcells : Token.cells? line.tokens = some cells) (hheader : table.header = some header)
      (hlength : cells.length = header.length)
      (hvalues : InOrder (fun cell => (grammar.read line cell).Gives) cells next values after) :
      Accepts grammar line (.validationTable table) next
        (.leaf (.validationTable { table with rows := table.rows ++ [⟨line.start, values⟩] }))
        after
  | message {block token message next} (htokens : line.tokens = [token])
      (hmessage : token.quoted? = some message) :
      Accepts grammar line (.expectedErrors block) next
        (.leaf (.expectedErrors { block with messages := block.messages ++ [message] })) next
  | code {lines item received next after}
      (hread : (grammar.readLine line).Gives next item after)
      (hadd : CodeLine.add lines item = .ok received) :
      Accepts grammar line (.body lines) next (received.map .body) after
  | branch {whole lines item received next after} (hbody : whole.body? = some lines)
      (hread : (grammar.readLine line).Gives next item after)
      (hadd : CodeLine.add lines item = .ok received) :
      Accepts grammar line (.expression whole) next
        ((received.map fun lines => .expression (whole.withBody lines)).within 0) after
  | case {mark subject cases item received next after}
      (hread : (grammar.readLine line).Gives next item after)
      (hadd : CodeLine.addCase cases item = .ok received) :
      Accepts grammar line (.expression (.switch mark subject cases)) next
        (received.map fun cases => .expression (.switch mark subject cases)) after

/-- A line taken by the receiver at a path. The answer is seen from that receiver. -/
inductive Receiver.Takes (grammar : Grammar) (line : Line) :
    SlotPath → Receiver → Nat → Received Receiver → Nat → Prop
  | here {receiver next received after}
      (haccepted : receiver.Accepts grammar line next received after) :
      Takes grammar line [] receiver next received after
  | inside {receiver slot path inner next received after}
      (hslot : receiver.slot? slot = some inner)
      (htaken : Takes grammar line path inner next received after) :
      Takes grammar line (slot :: path) receiver next (received.map (receiver.withSlot slot)) after

variable {grammar : Grammar} {line : Line} {next after : Nat}

namespace DeclarationLine

theorem name_of_gives {keyword : Keyword} {name : String}
    (h : (DeclarationLine.name line keyword).Gives next name after) : next = after := by
  unfold DeclarationLine.name at h
  split at h
  · next token _ =>
    cases hname : token.name? with
    | none => simp [hname] at h
    | some word =>
      simp only [hname, Option.elim_some, gives_pure] at h
      exact h.2
  · simp at h

/-- Every word that may open a line at the outermost depth introduces a declaration, but for the one
that introduces an inclusion. -/
theorem emptyDeclaration?_ne_none {keyword : Keyword} {name : String} {reference : Reference}
    (hroot : Keyword.roots.contains keyword = true) (hinclusion : keyword ≠ .inclusion) :
    emptyDeclaration? keyword name reference ≠ none := by
  cases keyword <;>
    first | contradiction | exact absurd hroot (by decide) | simp [emptyDeclaration?]

theorem accepts_addInclusion {document : Document}
    (hkeyword : (line.tokens.head?.bind Token.keyword?) = some .inclusion) :
    Receiver.Accepts grammar line (.document document) next
      ((addInclusion line document).map .document) next := by
  unfold addInclusion
  split
  · next _ file htokens =>
    split
    · exact .inclusion
    · next hquoted =>
      refine .malformedInclusion ⟨hkeyword, fun first other hother => ?_⟩
      rw [htokens] at hother
      cases hother
      exact hquoted
  · next hform =>
    exact .malformedInclusion ⟨hkeyword, fun first file hfile => absurd hfile (hform _ _)⟩

theorem accepts_receiveRoot {document : Document} {received : Received Document}
    (h : (receiveRoot line document).Gives next received after) :
    Receiver.Accepts grammar line (.document document) next (received.map .document) after := by
  unfold receiveRoot at h
  split at h
  · next hempty =>
    obtain ⟨rfl, rfl⟩ := gives_pure.1 h
    exact .skip hempty
  · next first rest htokens =>
    split at h
    · next hkeyword =>
      obtain ⟨rfl, rfl⟩ := gives_pure.1 h
      have hfirst := (Option.filter_eq_some_iff.1 hkeyword).1
      exact accepts_addInclusion (by rw [htokens, List.head?_cons, Option.bind_some, hfirst])
    · next keyword hinclusion hkeyword =>
      obtain ⟨name, between, hname, h⟩ := gives_bind.1 h
      obtain rfl := name_of_gives hname
      have hroot := (Option.filter_eq_some_iff.1 hkeyword).2
      split at h
      · next declaration hsort =>
        obtain ⟨rfl, rfl⟩ := gives_pure.1 h
        exact .declaration hname hsort
      · next hnone => exact absurd hnone (emptyDeclaration?_ne_none hroot (by simpa using hinclusion))
    · simp at h

theorem gives_expectSingle {keyword : Keyword} {result : Unit}
    (h : (line.expectSingle keyword).Gives next result after) : next = after := by
  unfold Line.expectSingle at h
  split at h
  · simp at h
  · exact (gives_pure.1 h).2

theorem accepts_receiveFunction {decl : FunctionDecl} {received : Received FunctionDecl}
    (h : (receiveFunction line decl).Gives next received after) :
    Receiver.Accepts grammar line (.function decl) next (received.map .function) after := by
  unfold receiveFunction at h
  split at h
  · next hempty =>
    obtain ⟨rfl, rfl⟩ := gives_pure.1 h
    exact .skip hempty
  · split at h
    · simp at h
    · next block _ =>
      obtain ⟨_, between, hsingle, h⟩ := gives_bind.1 h
      obtain rfl := gives_expectSingle hsingle
      split at h
      · simp at h
      · next hnew =>
        obtain ⟨rfl, rfl⟩ := gives_pure.1 h
        exact .functionBlock (by simpa using hnew)

theorem exists_of_gives_definition {definition : Definition}
    (h : (DeclarationLine.definition grammar line).Gives next definition after) :
    ∃ mark type name default,
      (grammar.readLine line).Gives next (.declare mark type name default) after ∧
      definition = ⟨mark.id, name, mark.reference, type, default⟩ := by
  unfold DeclarationLine.definition at h
  obtain ⟨item, between, hread, h⟩ := gives_bind.1 h
  split at h
  · obtain ⟨rfl, rfl⟩ := gives_pure.1 h
    exact ⟨_, _, _, _, hread, rfl⟩
  · simp at h

theorem accepts_receiveVariable {block : VariableBlock} {received : Received VariableBlock}
    (h : (receiveVariable grammar line block).Gives next received after) :
    Receiver.Accepts grammar line (.definitions block) next (received.map .definitions) after := by
  obtain ⟨definition, between, hdefinition, h⟩ := gives_bind.1 h
  obtain ⟨_, _, _, _, hread, rfl⟩ := exists_of_gives_definition hdefinition
  obtain ⟨rfl, rfl⟩ := gives_pure.1 h
  exact .definition hread

theorem accepts_receiveMember {decl : RecordDecl} {received : Received RecordDecl}
    (h : (receiveMember grammar line decl).Gives next received after) :
    Receiver.Accepts grammar line (.record decl) next (received.map .record) after := by
  obtain ⟨definition, between, hdefinition, h⟩ := gives_bind.1 h
  obtain ⟨_, _, _, _, hread, rfl⟩ := exists_of_gives_definition hdefinition
  obtain ⟨rfl, rfl⟩ := gives_pure.1 h
  exact .member hread

theorem accepts_receiveEnumMember {decl : EnumDecl} {received : Received EnumDecl}
    (h : (receiveEnumMember line decl).Gives next received after) :
    Receiver.Accepts grammar line (.enumeration decl) next (received.map .enumeration) after := by
  unfold receiveEnumMember at h
  split at h
  · simp at h
  · next hmember =>
    split at h
    · simp at h
    · next hnew =>
      obtain ⟨rfl, rfl⟩ := gives_pure.1 h
      exact .enumMember hmember (by simpa using hnew)

end DeclarationLine

namespace TableLine

theorem exists_of_gives_row {cells : List (List Token)} {expected : Nat} {item : TableRow}
    (h : (row grammar line cells expected).Gives next item after) :
    ∃ values, cells.length = expected ∧
      InOrder (fun cell => (grammar.read line cell).Gives) cells next values after ∧
      item = ⟨line.start, values⟩ := by
  unfold row at h
  split at h
  · simp at h
  · next hlength =>
    obtain ⟨values, between, hvalues, h⟩ := gives_bind.1 h
    obtain ⟨rfl, rfl⟩ := gives_pure.1 h
    refine ⟨values, by simpa using hlength, (gives_mapM hvalues).imp ?_, rfl⟩
    intro cell _ _ _ hcell
    split at hcell
    · simp at hcell
    · exact hcell

theorem inOrder_columns {cells : List (List Token)} {columns : List Column}
    (h : InOrder (fun cell => (column line cell).Gives) cells next columns after) :
    InOrder (fun cell => (column line cell).Gives) cells next columns next ∧ next = after := by
  induction h with
  | nil => exact ⟨.nil, rfl⟩
  | cons hhead _ ih =>
    obtain ⟨htail, rfl⟩ := ih
    have hsame := hhead
    unfold column at hsame
    split at hsame
    · obtain ⟨_, rfl⟩ := gives_pure.1 hsame
      exact ⟨.cons hhead htail, rfl⟩
    · simp at hsame

theorem accepts_receive {table : TableDecl} {received : Received TableDecl}
    (h : (receive grammar line table).Gives next received after) :
    Receiver.Accepts grammar line (.table table) next (received.map .table) after := by
  unfold receive at h
  split at h
  · simp at h
  · next cells header hcells hheader =>
    obtain ⟨item, between, hrow, h⟩ := gives_bind.1 h
    obtain ⟨values, hlength, hvalues, rfl⟩ := exists_of_gives_row hrow
    obtain ⟨rfl, rfl⟩ := gives_pure.1 h
    exact .tableRow hcells hheader hlength hvalues
  · next cells hcells hheader =>
    obtain ⟨columns, between, hcolumns, h⟩ := gives_bind.1 h
    obtain ⟨hread, rfl⟩ := inOrder_columns (gives_mapM hcolumns)
    obtain ⟨rfl, rfl⟩ := gives_pure.1 h
    exact .tableHeader hcells hheader hread

theorem accepts_receiveValidation {table : ValidationTable} {received : Received ValidationTable}
    (h : (receiveValidation grammar line table).Gives next received after) :
    Receiver.Accepts grammar line (.validationTable table) next (received.map .validationTable)
      after := by
  unfold receiveValidation at h
  split at h
  · simp at h
  · next cells header hcells hheader =>
    obtain ⟨item, between, hrow, h⟩ := gives_bind.1 h
    obtain ⟨values, hlength, hvalues, rfl⟩ := exists_of_gives_row hrow
    obtain ⟨rfl, rfl⟩ := gives_pure.1 h
    exact .validationRow hcells hheader hlength hvalues
  · next cells hcells hheader =>
    split at h
    · next columns hcolumns =>
      obtain ⟨rfl, rfl⟩ := gives_pure.1 h
      exact .validationHeader hcells hheader hcolumns
    · simp at h

end TableLine

namespace ScenarioLine

theorem accepts_receiveFunction {decl : ScenarioDecl} {received : Received ScenarioDecl}
    (h : (receiveFunction line decl).Gives next received after) :
    Receiver.Accepts grammar line (.scenario decl) next (received.map .scenario) after := by
  unfold receiveFunction at h
  split at h
  · simp at h
  · next hfunction =>
    have hnone : decl.function = none := by simpa using hfunction
    split at h
    · obtain ⟨rfl, rfl⟩ := gives_pure.1 h
      have hnew : decl.block? .function = none := by
        simp [ScenarioDecl.block?, ScenarioDecl.inlineFunction?, hnone]
      exact .scenarioBlock hnew fun _ => hnone
    · split at h
      · obtain ⟨rfl, rfl⟩ := gives_pure.1 h
        exact .testedFunction hnone
      · simp at h
    · simp at h

theorem accepts_receiveExpectedError {decl : ScenarioDecl} {received : Received ScenarioDecl}
    (h : (receiveExpectedError line decl).Gives next received after) :
    Receiver.Accepts grammar line (.scenario decl) next (received.map .scenario) after := by
  unfold receiveExpectedError at h
  split at h
  · simp at h
  · next hnew =>
    split at h
    · split at h
      · obtain ⟨rfl, rfl⟩ := gives_pure.1 h
        exact .expectedError (by simpa using hnew)
      · simp at h
    · simp at h

theorem accepts_receiveBlock {decl : ScenarioDecl} {block : ScenarioBlock}
    {received : Received ScenarioDecl} (hblock : block ≠ .function)
    (h : (receiveBlock line decl block).Gives next received after) :
    Receiver.Accepts grammar line (.scenario decl) next (received.map .scenario) after := by
  obtain ⟨_, between, hsingle, h⟩ := gives_bind.1 h
  obtain rfl := DeclarationLine.gives_expectSingle hsingle
  split at h
  · simp at h
  · next hnew =>
    obtain ⟨rfl, rfl⟩ := gives_pure.1 h
    exact .scenarioBlock (by simpa using hnew) fun heq => absurd heq hblock

theorem accepts_receive {decl : ScenarioDecl} {received : Received ScenarioDecl}
    (h : (receive line decl).Gives next received after) :
    Receiver.Accepts grammar line (.scenario decl) next (received.map .scenario) after := by
  unfold receive at h
  split at h
  · next hempty =>
    obtain ⟨rfl, rfl⟩ := gives_pure.1 h
    exact .skip hempty
  · split at h
    · exact accepts_receiveFunction h
    · exact accepts_receiveExpectedError h
    · next hfunction _ =>
      split at h
      · next block hblock =>
        refine accepts_receiveBlock ?_ h
        rintro rfl
        obtain ⟨keyword, hfirst, hkeyword⟩ := Option.bind_eq_some_iff.1 hblock
        have := List.find?_some hkeyword
        simp only [ScenarioBlock.keyword, beq_iff_eq] at this
        exact hfunction (by rw [hfirst, this])
      · simp at h

theorem accepts_receiveAssignment {block : AssignmentBlock} {received : Received AssignmentBlock}
    (h : (receiveAssignment grammar line block).Gives next received after) :
    Receiver.Accepts grammar line (.assignments block) next (received.map .assignments) after := by
  obtain ⟨item, between, hread, h⟩ := gives_bind.1 h
  split at h
  · obtain ⟨rfl, rfl⟩ := gives_pure.1 h
    exact .assignment hread
  · simp at h

theorem accepts_receiveMessage {block : ExpectedErrors} {received : Received ExpectedErrors}
    (h : (receiveMessage line block).Gives next received after) :
    Receiver.Accepts grammar line (.expectedErrors block) next (received.map .expectedErrors)
      after := by
  unfold receiveMessage at h
  split at h
  · next htokens =>
    split at h
    · next hmessage =>
      obtain ⟨rfl, rfl⟩ := gives_pure.1 h
      exact .message htokens hmessage
    · simp at h
  · simp at h

end ScenarioLine

namespace CodeLine

theorem accepts_receive {lines : List Expr} {received : Received (List Expr)}
    (h : (receive grammar line lines).Gives next received after) :
    Receiver.Accepts grammar line (.body lines) next (received.map .body) after := by
  obtain ⟨item, between, hread, h⟩ := gives_bind.1 h
  obtain ⟨hadd, rfl⟩ := gives_ofExcept.1 h
  exact .code hread hadd

theorem accepts_receiveBelow {whole : Expr} {received : Received Expr}
    (h : (receiveBelow grammar line whole).Gives next received after) :
    Receiver.Accepts grammar line (.expression whole) next (received.map .expression) after := by
  unfold receiveBelow at h
  split at h
  · next lines hbody =>
    obtain ⟨inner, between, hinner, h⟩ := gives_bind.1 h
    obtain ⟨item, between', hread, hinner⟩ := gives_bind.1 hinner
    obtain ⟨hadd, rfl⟩ := gives_ofExcept.1 hinner
    obtain ⟨rfl, rfl⟩ := gives_pure.1 h
    exact .branch hbody hread hadd
  · obtain ⟨item, between, hread, h⟩ := gives_bind.1 h
    obtain ⟨inner, between', hinner, h⟩ := gives_bind.1 h
    obtain ⟨hadd, rfl⟩ := gives_ofExcept.1 hinner
    obtain ⟨rfl, rfl⟩ := gives_pure.1 h
    exact .case hread hadd
  · simp at h

end CodeLine

namespace Receiver

theorem accepts_of_receive {receiver : Receiver} {received : Received Receiver}
    (h : (receiver.receive grammar line).Gives next received after) :
    Accepts grammar line receiver next received after := by
  cases receiver <;> obtain ⟨inner, hinner, rfl⟩ := gives_map.1 h
  case document => exact DeclarationLine.accepts_receiveRoot hinner
  case function => exact DeclarationLine.accepts_receiveFunction hinner
  case definitions => exact DeclarationLine.accepts_receiveVariable hinner
  case enumeration => exact DeclarationLine.accepts_receiveEnumMember hinner
  case table => exact TableLine.accepts_receive hinner
  case record => exact DeclarationLine.accepts_receiveMember hinner
  case scenario => exact ScenarioLine.accepts_receive hinner
  case assignments => exact ScenarioLine.accepts_receiveAssignment hinner
  case validationTable => exact TableLine.accepts_receiveValidation hinner
  case expectedErrors => exact ScenarioLine.accepts_receiveMessage hinner
  case body => exact CodeLine.accepts_receive hinner
  case expression => exact CodeLine.accepts_receiveBelow hinner

/-- A line that is not refused by the receiver at a path. -/
theorem takes_of_receiveAt? {path : SlotPath} {receiver : Receiver}
    {reading : Numbered (Received Receiver)} {received : Received Receiver}
    (hreading : receiver.receiveAt? grammar line path = some reading)
    (h : reading.Gives next received after) :
    Takes grammar line path receiver next received after := by
  induction path generalizing receiver reading received with
  | nil =>
    cases hreading
    exact .here (accepts_of_receive h)
  | cons slot path ih =>
    simp only [receiveAt?, Option.bind_eq_bind, Option.bind_eq_some_iff] at hreading
    obtain ⟨inner, hslot, innerReading, hinner, hreading⟩ := hreading
    cases hreading
    obtain ⟨innerReceived, hgives, rfl⟩ := gives_map.1 h
    exact .inside hslot (ih hinner hgives)

end Receiver

/-! ### Refused lines -/

namespace DeclarationLine

theorem spends_name (keyword : Keyword) : (name line keyword).Spends := by
  unfold name
  split
  · next token _ =>
    cases token.name? with
    | none => exact spends_refuse _ _
    | some word => exact spends_pure _
  · exact spends_refuse _ _

theorem spends_receiveRoot (document : Document) : (receiveRoot line document).Spends := by
  unfold receiveRoot
  split
  · exact spends_pure _
  · split
    · exact spends_pure _
    · apply spends_bind (spends_name _)
      intro _
      split <;> exact spends_pure _
    · exact spends_refuse _ _

theorem spends_expectSingle (keyword : Keyword) : (line.expectSingle keyword).Spends := by
  unfold Line.expectSingle
  split
  · exact spends_fail _ _ _
  · exact spends_pure _

theorem spends_receiveFunction (decl : FunctionDecl) : (receiveFunction line decl).Spends := by
  unfold receiveFunction
  split
  · exact spends_pure _
  · split
    · exact spends_refuse _ _
    · apply spends_bind (spends_expectSingle _)
      intro _
      split
      · exact spends_refuse _ _
      · exact spends_pure _

theorem spends_definition : (DeclarationLine.definition grammar line).Spends := by
  apply spends_bind (grammar.spends_read _ _)
  intro item
  split
  · exact spends_pure _
  · exact spends_throw _

theorem spends_receiveEnumMember (decl : EnumDecl) : (receiveEnumMember line decl).Spends := by
  unfold receiveEnumMember
  split
  · exact spends_refuse _ _
  · split
    · exact spends_refuse _ _
    · exact spends_pure _

end DeclarationLine

namespace TableLine

theorem spends_row (cells : List (List Token)) (expected : Nat) :
    (row grammar line cells expected).Spends := by
  unfold row
  split
  · exact spends_refuse _ _
  · refine spends_bind (spends_mapM _ fun cell _ => ?_) fun _ => spends_pure _
    split
    · exact spends_refuse _ _
    · exact grammar.spends_read _ _

theorem spends_receive (table : TableDecl) : (receive grammar line table).Spends := by
  unfold receive
  split
  · exact spends_refuse _ _
  · exact spends_bind (spends_row _ _) fun _ => spends_pure _
  · refine spends_bind (spends_mapM _ fun cell _ => ?_) fun _ => spends_pure _
    unfold column
    split
    · exact spends_pure _
    · exact spends_throw _

theorem spends_receiveValidation (table : ValidationTable) :
    (receiveValidation grammar line table).Spends := by
  unfold receiveValidation
  split
  · exact spends_refuse _ _
  · exact spends_bind (spends_row _ _) fun _ => spends_pure _
  · split
    · exact spends_pure _
    · exact spends_refuse _ _

end TableLine

namespace ScenarioLine

theorem spends_receiveFunction (decl : ScenarioDecl) : (receiveFunction line decl).Spends := by
  unfold receiveFunction
  split
  · exact spends_refuse _ _
  · split
    · exact spends_pure _
    · split
      · exact spends_pure _
      · exact spends_refuse _ _
    · exact spends_refuse _ _

theorem spends_receiveExpectedError (decl : ScenarioDecl) :
    (receiveExpectedError line decl).Spends := by
  unfold receiveExpectedError
  split
  · exact spends_refuse _ _
  · split
    · split
      · exact spends_pure _
      · exact spends_refuse _ _
    · exact spends_refuse _ _

theorem spends_receive (decl : ScenarioDecl) : (receive line decl).Spends := by
  unfold receive
  split
  · exact spends_pure _
  · split
    · exact spends_receiveFunction decl
    · exact spends_receiveExpectedError decl
    · split
      · apply spends_bind (DeclarationLine.spends_expectSingle _)
        intro _
        split
        · exact spends_refuse _ _
        · exact spends_pure _
      · exact spends_refuse _ _

theorem spends_receiveAssignment (block : AssignmentBlock) :
    (receiveAssignment grammar line block).Spends := by
  apply spends_bind (grammar.spends_read _ _)
  intro item
  split
  · exact spends_pure _
  · exact spends_throw _

theorem spends_receiveMessage (block : ExpectedErrors) : (receiveMessage line block).Spends := by
  unfold receiveMessage
  split
  · split
    · exact spends_pure _
    · exact spends_refuse _ _
  · exact spends_refuse _ _

end ScenarioLine

namespace CodeLine

theorem spends_receive (lines : List Expr) : (receive grammar line lines).Spends :=
  spends_bind (grammar.spends_read _ _) fun _ => spends_ofExcept _

theorem spends_receiveBelow (whole : Expr) : (receiveBelow grammar line whole).Spends := by
  unfold receiveBelow
  split
  · exact spends_bind (spends_receive _) fun _ => spends_pure _
  · apply spends_bind (grammar.spends_read _ _)
    intro _
    exact spends_bind (spends_ofExcept _) fun _ => spends_pure _
  · exact spends_refuse _ _

end CodeLine

namespace Receiver

theorem spends_receive (receiver : Receiver) : (receiver.receive grammar line).Spends := by
  cases receiver <;> refine spends_map ?_
  case document => exact DeclarationLine.spends_receiveRoot _
  case function => exact DeclarationLine.spends_receiveFunction _
  case definitions | record =>
    exact spends_bind DeclarationLine.spends_definition fun _ => spends_pure _
  case enumeration => exact DeclarationLine.spends_receiveEnumMember _
  case table => exact TableLine.spends_receive _
  case scenario => exact ScenarioLine.spends_receive _
  case assignments => exact ScenarioLine.spends_receiveAssignment _
  case validationTable => exact TableLine.spends_receiveValidation _
  case expectedErrors => exact ScenarioLine.spends_receiveMessage _
  case body => exact CodeLine.spends_receive _
  case expression => exact CodeLine.spends_receiveBelow _

/-- No line gives numbers back, whether it is taken or refused. -/
theorem spends_of_receiveAt? {path : SlotPath} {receiver : Receiver}
    {reading : Numbered (Received Receiver)}
    (hreading : receiver.receiveAt? grammar line path = some reading) : reading.Spends := by
  induction path generalizing receiver reading with
  | nil =>
    cases hreading
    exact spends_receive receiver
  | cons slot path ih =>
    simp only [receiveAt?, Option.bind_eq_bind, Option.bind_eq_some_iff] at hreading
    obtain ⟨inner, _, innerReading, hinner, hreading⟩ := hreading
    cases hreading
    exact spends_map (ih hinner)

end Receiver

end DecisionLang
