import DecisionLang.Proofs.Reading.Taken

/-!
# Receivers inside receivers

A line that is taken changes one receiver and, with it, all receivers that it is inside of.
`Receiver.Replaces` has one case for each place that a receiver can be inside another, with both
before and after the change. A receiver stays alike: it keeps its sort, declarations keep their
names, and branches keep what they had before the lines below them. `Receiver.Holds` says what can
stand in the slots of each sort of receiver. Main statements: `Receiver.replaces_of_slot?` and
`Receiver.Takes.alike`.
-/

namespace DecisionLang

namespace Expr

def head : Expr → Expr
  | ifThen mark condition _ _ => ifThen mark condition [] []
  | elseIf mark condition _ => elseIf mark condition []
  | otherwise mark _ => otherwise mark []
  | switch mark subject _ => switch mark subject []
  | case mark value _ => case mark value []
  | other => other

theorem head_withBody {whole : Expr} {lines lines' : List Expr} (h : whole.body? = some lines) :
    (whole.withBody lines').head = whole.head := by
  cases whole <;> simp_all [body?, withBody, head]

theorem withBody_self {whole : Expr} {lines : List Expr} (h : whole.body? = some lines) :
    whole.withBody lines = whole := by
  cases whole <;> cases h <;> rfl

end Expr

theorem ScenarioDecl.function_of_inlineFunction? {decl : ScenarioDecl} {inner : FunctionDecl}
    (h : decl.inlineFunction? = some inner) : decl.function = some (.inline inner) := by
  unfold ScenarioDecl.inlineFunction? at h
  split at h
  · next hfunction =>
    cases h
    exact hfunction
  · cases h

theorem FunctionBlock.ofSlot?_slot (block : FunctionBlock) :
    FunctionBlock.ofSlot? block.slot = some block := by
  cases block <;> rfl

theorem FunctionBlock.slot_of_ofSlot? {slot : Nat} {block : FunctionBlock}
    (h : FunctionBlock.ofSlot? slot = some block) : block.slot = slot := by
  have hslot := List.find?_some h
  exact beq_iff_eq.1 hslot

theorem ScenarioBlock.ofSlot?_slot (block : ScenarioBlock) :
    ScenarioBlock.ofSlot? block.slot = some block := by
  cases block <;> rfl

theorem ScenarioBlock.slot_of_ofSlot? {slot : Nat} {block : ScenarioBlock}
    (h : ScenarioBlock.ofSlot? slot = some block) : block.slot = slot := by
  have hslot := List.find?_some h
  exact beq_iff_eq.1 hslot

namespace Receiver

/-- What a receiver holds in a slot. -/
inductive Holds : Receiver → Nat → Receiver → Prop
  | declaration {document : Document} {slot : Nat} {declaration : Declaration}
      (hslot : document.declarations[slot]? = some declaration) :
      Holds (.document document) slot (ofDeclaration declaration)
  | functionBlock {decl : FunctionDecl} {block : FunctionBlock} {inner : Receiver}
      (hblock : decl.block? block = some inner) : Holds (.function decl) block.slot inner
  | scenarioBlock {decl : ScenarioDecl} {block : ScenarioBlock} {inner : Receiver}
      (hblock : decl.block? block = some inner) : Holds (.scenario decl) block.slot inner
  | line {lines : List Expr} {slot : Nat} {item : Expr} (hslot : lines[slot]? = some item) :
      Holds (.body lines) slot (.expression item)
  | branchBody {whole : Expr} {lines : List Expr} (hbody : whole.body? = some lines) :
      Holds (.expression whole) 0 (.body lines)
  | alternative {mark : Mark} {condition : Expr} {lines alternatives : List Expr} {slot : Nat}
      {item : Expr} (hslot : alternatives[slot]? = some item) :
      Holds (.expression (.ifThen mark condition lines alternatives)) (slot + 1) (.expression item)
  | case {mark : Mark} {subject : Expr} {cases : List Expr} {slot : Nat} {item : Expr}
      (hslot : cases[slot]? = some item) :
      Holds (.expression (.switch mark subject cases)) slot (.expression item)

/-- What no line changes about a receiver. -/
inductive Alike : Receiver → Receiver → Prop
  | document {document document' : Document} : Alike (.document document) (.document document')
  | function {decl decl' : FunctionDecl} (hname : decl'.name = decl.name)
      (hplace : decl'.reference = decl.reference) : Alike (.function decl) (.function decl')
  | definitions {block block' : VariableBlock} (hplace : block'.reference = block.reference) :
      Alike (.definitions block) (.definitions block')
  | enumeration {decl decl' : EnumDecl} (hname : decl'.name = decl.name)
      (hplace : decl'.reference = decl.reference) : Alike (.enumeration decl) (.enumeration decl')
  | table {decl decl' : TableDecl} (hname : decl'.name = decl.name)
      (hplace : decl'.reference = decl.reference) : Alike (.table decl) (.table decl')
  | record {decl decl' : RecordDecl} (hname : decl'.name = decl.name)
      (hplace : decl'.reference = decl.reference) : Alike (.record decl) (.record decl')
  | scenario {decl decl' : ScenarioDecl} (hname : decl'.name = decl.name)
      (hplace : decl'.reference = decl.reference) : Alike (.scenario decl) (.scenario decl')
  | assignments {block block' : AssignmentBlock} (hplace : block'.reference = block.reference) :
      Alike (.assignments block) (.assignments block')
  | validationTable {table table' : ValidationTable} (hplace : table'.reference = table.reference) :
      Alike (.validationTable table) (.validationTable table')
  | expectedErrors {block block' : ExpectedErrors} (hplace : block'.reference = block.reference) :
      Alike (.expectedErrors block) (.expectedErrors block')
  | body {lines lines' : List Expr} : Alike (.body lines) (.body lines')
  | expression {item item' : Expr} (hhead : item'.head = item.head) :
      Alike (.expression item) (.expression item')

theorem Alike.refl (receiver : Receiver) : receiver.Alike receiver := by
  cases receiver <;> constructor <;> rfl

/-- A receiver with one inside it, before and after a change of the inner one. -/
inductive Replaces : Receiver → Receiver → Receiver → Receiver → Prop
  | declaration {document : Document} {slot : Nat} {declaration declaration' : Declaration}
      (hslot : document.declarations[slot]? = some declaration)
      (hname : declaration'.name = declaration.name) :
      Replaces (.document document) (ofDeclaration declaration) (ofDeclaration declaration')
        (.document { document with
          declarations := document.declarations.set slot declaration' })
  | parameters {decl : FunctionDecl} {block block' : VariableBlock}
      (hslot : decl.parameters = some block) :
      Replaces (.function decl) (.definitions block) (.definitions block')
        (.function { decl with parameters := some block' })
  | results {decl : FunctionDecl} {block block' : VariableBlock}
      (hslot : decl.results = some block) :
      Replaces (.function decl) (.definitions block) (.definitions block')
        (.function { decl with results := some block' })
  | code {decl : FunctionDecl} {code : CodeBlock} {lines' : List Expr}
      (hslot : decl.code = some code) :
      Replaces (.function decl) (.body code.expressions) (.body lines')
        (.function { decl with code := some { code with expressions := lines' } })
  | testedFunction {decl : ScenarioDecl} {function function' : FunctionDecl}
      (hslot : decl.function = some (.inline function)) :
      Replaces (.scenario decl) (.function function) (.function function')
        (.scenario { decl with function := some (.inline function') })
  | testedEnumeration {decl : ScenarioDecl} {enumeration enumeration' : EnumDecl}
      (hslot : decl.enumeration = some enumeration) :
      Replaces (.scenario decl) (.enumeration enumeration) (.enumeration enumeration')
        (.scenario { decl with enumeration := some enumeration' })
  | testedTable {decl : ScenarioDecl} {table table' : TableDecl}
      (hslot : decl.table = some table) :
      Replaces (.scenario decl) (.table table) (.table table')
        (.scenario { decl with table := some table' })
  | givenParameters {decl : ScenarioDecl} {block block' : AssignmentBlock}
      (hslot : decl.parameters = some block) :
      Replaces (.scenario decl) (.assignments block) (.assignments block')
        (.scenario { decl with parameters := some block' })
  | givenResults {decl : ScenarioDecl} {block block' : AssignmentBlock}
      (hslot : decl.results = some block) :
      Replaces (.scenario decl) (.assignments block) (.assignments block')
        (.scenario { decl with results := some block' })
  | validationTable {decl : ScenarioDecl} {table table' : ValidationTable}
      (hslot : decl.validationTable = some table) :
      Replaces (.scenario decl) (.validationTable table) (.validationTable table')
        (.scenario { decl with validationTable := some table' })
  | expectErrors {decl : ScenarioDecl} {block block' : ExpectedErrors}
      (hslot : decl.expectErrors = some block) :
      Replaces (.scenario decl) (.expectedErrors block) (.expectedErrors block')
        (.scenario { decl with expectErrors := some block' })
  | expectComponentErrors {decl : ScenarioDecl} {block block' : ExpectedErrors}
      (hslot : decl.expectComponentErrors = some block) :
      Replaces (.scenario decl) (.expectedErrors block) (.expectedErrors block')
        (.scenario { decl with expectComponentErrors := some block' })
  | expectExecutionErrors {decl : ScenarioDecl} {block block' : ExpectedErrors}
      (hslot : decl.expectExecutionErrors = some block) :
      Replaces (.scenario decl) (.expectedErrors block) (.expectedErrors block')
        (.scenario { decl with expectExecutionErrors := some block' })
  | line {lines : List Expr} {slot : Nat} {item item' : Expr} (hslot : lines[slot]? = some item)
      (hhead : item'.head = item.head) :
      Replaces (.body lines) (.expression item) (.expression item') (.body (lines.set slot item'))
  | branchBody {whole : Expr} {lines lines' : List Expr} (hslot : whole.body? = some lines) :
      Replaces (.expression whole) (.body lines) (.body lines')
        (.expression (whole.withBody lines'))
  | alternative {mark : Mark} {condition : Expr} {lines alternatives : List Expr} {slot : Nat}
      {item item' : Expr} (hslot : alternatives[slot]? = some item)
      (hhead : item'.head = item.head) :
      Replaces (.expression (.ifThen mark condition lines alternatives)) (.expression item)
        (.expression item')
        (.expression (.ifThen mark condition lines (alternatives.set slot item')))
  | case {mark : Mark} {subject : Expr} {cases : List Expr} {slot : Nat} {item item' : Expr}
      (hslot : cases[slot]? = some item) (hhead : item'.head = item.head) :
      Replaces (.expression (.switch mark subject cases)) (.expression item) (.expression item')
        (.expression (.switch mark subject (cases.set slot item')))

variable {receiver inner inner' : Receiver} {slot : Nat}

theorem holds_of_slot? (hslot : receiver.slot? slot = some inner) : receiver.Holds slot inner := by
  unfold slot? at hslot
  split at hslot
  · obtain ⟨declaration, hdeclaration, rfl⟩ := Option.map_eq_some_iff.1 hslot
    exact .declaration hdeclaration
  · obtain ⟨block, hblock, hinner⟩ := Option.bind_eq_some_iff.1 hslot
    obtain rfl := FunctionBlock.slot_of_ofSlot? hblock
    exact .functionBlock hinner
  · obtain ⟨block, hblock, hinner⟩ := Option.bind_eq_some_iff.1 hslot
    obtain rfl := ScenarioBlock.slot_of_ofSlot? hblock
    exact .scenarioBlock hinner
  · obtain ⟨item, hitem, rfl⟩ := Option.map_eq_some_iff.1 hslot
    exact .line hitem
  · cases hslot
    exact .branchBody rfl
  · obtain ⟨item, hitem, rfl⟩ := Option.map_eq_some_iff.1 hslot
    exact .alternative hitem
  · cases hslot
    exact .branchBody rfl
  · cases hslot
    exact .branchBody rfl
  · cases hslot
    exact .branchBody rfl
  · obtain ⟨item, hitem, rfl⟩ := Option.map_eq_some_iff.1 hslot
    exact .case hitem
  · cases hslot

theorem ofDeclaration_alike {declaration : Declaration}
    (h : (ofDeclaration declaration).Alike inner') :
    ∃ declaration', inner' = ofDeclaration declaration' ∧ inner'.declaration? = some declaration' ∧
      declaration'.name = declaration.name ∧ declaration'.reference = declaration.reference := by
  cases declaration <;> cases h <;> rename_i decl' hname hplace
  · exact ⟨.function decl', rfl, rfl, hname, hplace⟩
  · exact ⟨.enumeration decl', rfl, rfl, hname, hplace⟩
  · exact ⟨.table decl', rfl, rfl, hname, hplace⟩
  · exact ⟨.record decl', rfl, rfl, hname, hplace⟩
  · exact ⟨.scenario decl', rfl, rfl, hname, hplace⟩

theorem replaces_of_functionBlock {decl : FunctionDecl} {block : FunctionBlock}
    (hslot : decl.block? block = some inner) (halike : inner.Alike inner') :
    (function decl).Replaces inner inner' (.function (decl.withBlock block inner')) := by
  cases block with
  | parameters =>
    obtain ⟨block, hblock, rfl⟩ := Option.map_eq_some_iff.1 hslot
    cases halike
    exact .parameters hblock
  | results =>
    obtain ⟨block, hblock, rfl⟩ := Option.map_eq_some_iff.1 hslot
    cases halike
    exact .results hblock
  | code =>
    obtain ⟨code, hcode, rfl⟩ := Option.map_eq_some_iff.1 hslot
    cases halike
    simp only [FunctionDecl.withBlock, hcode, Option.map_some]
    exact .code hcode

theorem replaces_of_scenarioBlock {decl : ScenarioDecl} {block : ScenarioBlock}
    (hslot : decl.block? block = some inner) (halike : inner.Alike inner') :
    (scenario decl).Replaces inner inner' (.scenario (decl.withBlock block inner')) := by
  cases block <;> obtain ⟨part, hpart, rfl⟩ := Option.map_eq_some_iff.1 hslot <;> cases halike
  case function => exact .testedFunction (ScenarioDecl.function_of_inlineFunction? hpart)
  case enumeration => exact .testedEnumeration hpart
  case table => exact .testedTable hpart
  case parameters => exact .givenParameters hpart
  case results => exact .givenResults hpart
  case validationTable => exact .validationTable hpart
  case expectErrors => exact .expectErrors hpart
  case expectComponentErrors => exact .expectComponentErrors hpart
  case expectExecutionErrors => exact .expectExecutionErrors hpart

/-- A receiver that is put back into its slot while it is still alike replaces the one there. -/
theorem replaces_of_slot? (hslot : receiver.slot? slot = some inner)
    (halike : inner.Alike inner') : receiver.Replaces inner inner' (receiver.withSlot slot inner') := by
  cases holds_of_slot? hslot with
  | declaration hdeclaration =>
    obtain ⟨declaration', rfl, hinner, hname, _⟩ := ofDeclaration_alike halike
    simp only [withSlot, hinner]
    exact .declaration hdeclaration hname
  | @functionBlock _ block _ hblock =>
    simp only [withSlot, block.ofSlot?_slot, Option.elim_some]
    exact replaces_of_functionBlock hblock halike
  | @scenarioBlock _ block _ hblock =>
    simp only [withSlot, block.ofSlot?_slot, Option.elim_some]
    exact replaces_of_scenarioBlock hblock halike
  | line hitem =>
    cases halike with
    | expression hhead => exact .line hitem hhead
  | branchBody hbody =>
    cases halike
    exact .branchBody hbody
  | alternative hitem =>
    cases halike with
    | expression hhead => exact .alternative hitem hhead
  | case hitem =>
    cases halike with
    | expression hhead => cases slot <;> exact .case hitem hhead

/-- A change inside leaves a receiver alike. -/
theorem Replaces.alike {receiver' : Receiver}
    (h : receiver.Replaces inner inner' receiver') : receiver.Alike receiver' := by
  cases h with
  | declaration => exact .document
  | parameters | results | code => exact .function rfl rfl
  | line => exact .body
  | branchBody hslot => exact .expression (Expr.head_withBody hslot)
  | alternative | case => exact .expression rfl
  | _ => exact .scenario rfl rfl

theorem Replaces.ne_document {receiver' : Receiver} {document : Document}
    (h : receiver.Replaces inner inner' receiver') : inner ≠ .document document := by
  intro hdocument
  cases h with
  | @declaration _ _ declaration => cases declaration <;> cases hdocument
  | _ => cases hdocument

variable {grammar : Grammar} {line : Line} {path : SlotPath} {next after : Nat}
  {received : Received Receiver}

theorem Accepts.alike (h : receiver.Accepts grammar line next received after) :
    receiver.Alike received.receiver := by
  cases h with
  | skip => exact .refl _
  | malformedInclusion | inclusion | declaration => exact .document
  | @functionBlock decl block => cases block <;> exact .function rfl rfl
  | definition => exact .definitions rfl
  | member => exact .record rfl rfl
  | enumMember => exact .enumeration rfl rfl
  | tableHeader | tableRow => exact .table rfl rfl
  | testedFunction | expectedError => exact .scenario rfl rfl
  | @scenarioBlock decl block => cases block <;> exact .scenario rfl rfl
  | assignment => exact .assignments rfl
  | validationHeader | validationRow => exact .validationTable rfl
  | message => exact .expectedErrors rfl
  | code => exact .body
  | branch hbody => exact .expression (Expr.head_withBody hbody)
  | case => exact .expression rfl

theorem Takes.alike (h : Takes grammar line path receiver next received after) :
    receiver.Alike received.receiver := by
  induction h with
  | here haccepted => exact haccepted.alike
  | inside hslot _ ih => exact (replaces_of_slot? hslot ih).alike

end Receiver

end DecisionLang
