import DecisionLang.Proofs.Reading.Construct

/-!
# What a taken line adds

A line that is taken adds one construct, directly below the receiver it was given to, and the
construct keeps the number of the line. If lines may stand below it, the answer leads to it. Only a
malformed inclusion is taken without an effect. Main statement: `Receiver.Takes.outcome`.
-/

namespace DecisionLang

def Trace.ComesFrom (line : Line) : Trace → Prop
  | .line reference => reference.file = line.file ∧ reference.line = line.number
  | .message text => ∃ token, line.tokens = [token] ∧ token.quoted? = some text

namespace Receiver

/-- Where lines below a construct go to: the body of a branch, or the construct itself. -/
def linesPath : Receiver → SlotPath
  | expression item => if item.body?.isSome then [0] else []
  | _ => []

/-- Addresses directly below a construct. An alternative belongs to the chain of branches that is
the last statement so far. -/
inductive Hosts (receiver : Receiver) : Address → Prop
  | site {site : Site} (hsite : ∀ index, site ≠ .alternative index) :
      Hosts receiver ⟨receiver.linesPath, site⟩
  | alternative {last index : Nat}
      (hlast : receiver.traceAt? ⟨receiver.linesPath, .statement last⟩ ≠ none)
      (hnext : receiver.traceAt? ⟨receiver.linesPath, .statement (last + 1)⟩ = none) :
      Hosts receiver ⟨receiver.linesPath ++ [last], .alternative index⟩

/-- What a line that is taken by the receiver at a path does. -/
inductive Outcome (line : Line) (path : SlotPath) (receiver : Receiver)
    (received : Received Receiver) : Prop
  /-- A line without tokens has no effect. -/
  | skipped (hempty : line.tokens = []) (hreceived : received = .leaf receiver)
  /-- A malformed inclusion adds nothing, which is remarked. -/
  | malformed {document : Document} (hline : line.IsMalformedInclusion) (hpath : path = [])
      (hreceiver : receiver = .document document)
      (hreceived : received =
        (DeclarationLine.addInclusion.malformed line document).map .document)
  | grown {below : Receiver} {address : Address} {trace : Trace}
      (hbelow : receiver.at? path = some below) (hhosts : below.Hosts address)
      (hgrows : receiver.Grows received.receiver (address.within path) trace)
      (htrace : trace.ComesFrom line)
      (hanswer : received.answer = .leaf ∨ ∃ further opened, address.path? = some further ∧
        received.answer = .child further ∧
        received.receiver.at? (path ++ further) = some opened ∧ opened.takesLines = true)

end Receiver

theorem Token.ne_nil_of_cells? {tokens : List Token} {cells : List (List Token)}
    (h : cells? tokens = some cells) : cells ≠ [] := by
  unfold cells? at h
  split at h
  · split at h
    · cases h
      unfold cellsBetween
      split
      · simp
      · split
        · simp
        · split <;> simp
    · cases h
  · cases h

/-! ### Expressions that were just read -/

namespace Grammar

variable {grammar : Grammar} {line : Line} {tokens : List Token} {next after : Nat} {result : Expr}

theorem head_of_read (h : (grammar.read line tokens).Gives next result after) :
    result.head = result := by
  refine read_induction (motive := fun _ _ result _ => result.head = result) ?_ h
  intro tokens next result after hbuilds
  cases hbuilds with
  | @branch kind => cases kind <;> rfl
  | @fallback kind => cases kind <;> rfl
  | _ => rfl

theorem comesFrom_of_read (h : (grammar.read line tokens).Gives next result after) :
    (Trace.line result.reference).ComesFrom line := by
  refine read_induction
    (motive := fun _ _ result _ => (Trace.line result.reference).ComesFrom line) ?_ h
  intro tokens next result after hbuilds
  cases hbuilds with
  | @branch kind => cases kind <;> exact ⟨rfl, rfl⟩
  | @fallback kind => cases kind <;> exact ⟨rfl, rfl⟩
  | _ => exact ⟨rfl, rfl⟩

end Grammar

namespace Receiver

theorem isBare_of {receiver : Receiver} (htrace : ∀ site, receiver.trace? site = none)
    (hslot : ∀ slot, receiver.slot? slot = none) : receiver.IsBare := by
  rintro ⟨holder, site⟩
  cases holder with
  | nil => exact htrace site
  | cons slot path => rw [traceAt?_cons, hslot, Option.bind_none]

theorem isBare_body : (body []).IsBare :=
  isBare_of (by intro site; cases site <;> simp [trace?]) (by simp [slot?])

theorem isBare_expression {item : Expr} (h : item.head = item) : (expression item).IsBare := by
  rintro ⟨holder, site⟩
  cases holder with
  | nil =>
    cases item <;> cases h <;> cases site <;> simp [traceAt?_nil, trace?]
  | cons slot path =>
    rw [traceAt?_cons]
    have hbody : ((body []).traceAt? ⟨path, site⟩) = none := isBare_body _
    cases item <;> cases h <;> cases slot <;> simp [slot?, hbody]

theorem isBare_function (name : String) (reference : Reference) :
    (function (FunctionDecl.empty name reference)).IsBare := by
  refine isBare_of (fun site => ?_) fun slot => ?_
  · cases site <;> try rfl
    next slot =>
      rw [trace?]
      cases FunctionBlock.ofSlot? slot with
      | none => rfl
      | some block => cases block <;> rfl
  · rw [slot?]
    cases FunctionBlock.ofSlot? slot with
    | none => rfl
    | some block => cases block <;> rfl

theorem isBare_scenario (name : String) (reference : Reference) :
    (scenario (ScenarioDecl.empty name reference)).IsBare := by
  refine isBare_of (fun site => ?_) fun slot => ?_
  · cases site <;> try rfl
    next slot =>
      rw [trace?]
      cases ScenarioBlock.ofSlot? slot with
      | none => rfl
      | some block => cases block <;> rfl
  · rw [slot?]
    cases ScenarioBlock.ofSlot? slot with
    | none => rfl
    | some block => cases block <;> rfl

theorem isBare_enumeration (name : String) (reference : Reference) :
    (enumeration (EnumDecl.empty name reference)).IsBare :=
  isBare_of (by intro site; cases site <;> simp [trace?, EnumDecl.empty]) (by simp [slot?])

theorem isBare_table (name : String) (reference : Reference) :
    (table (TableDecl.empty name reference)).IsBare :=
  isBare_of (by intro site; cases site <;> simp [trace?, TableDecl.empty]) (by simp [slot?])

theorem isBare_record (name : String) (reference : Reference) :
    (record (RecordDecl.empty name reference)).IsBare :=
  isBare_of (by intro site; cases site <;> simp [trace?, RecordDecl.empty]) (by simp [slot?])

theorem isBare_emptyDeclaration {keyword : Keyword} {name : String} {reference : Reference}
    {declaration : Declaration}
    (h : DeclarationLine.emptyDeclaration? keyword name reference = some declaration) :
    (ofDeclaration declaration).IsBare ∧ declaration.reference = reference := by
  unfold DeclarationLine.emptyDeclaration? at h
  split at h <;> cases h
  · exact ⟨isBare_function _ _, rfl⟩
  · exact ⟨isBare_enumeration _ _, rfl⟩
  · exact ⟨isBare_table _ _, rfl⟩
  · exact ⟨isBare_record _ _, rfl⟩
  · exact ⟨isBare_scenario _ _, rfl⟩

theorem isBare_definitions (reference : Reference) : (definitions ⟨reference, []⟩).IsBare :=
  isBare_of (by intro site; cases site <;> simp [trace?]) (by simp [slot?])

theorem isBare_assignments (reference : Reference) : (assignments ⟨reference, []⟩).IsBare :=
  isBare_of (by intro site; cases site <;> simp [trace?]) (by simp [slot?])

theorem isBare_validationTable (reference : Reference) :
    (validationTable ⟨reference, none, []⟩).IsBare :=
  isBare_of (by intro site; cases site <;> simp [trace?, ValidationTable.headerReference?])
    (by simp [slot?])

theorem isBare_expectedErrors (kind : ExpectationKind) (reference : Reference) :
    (expectedErrors ⟨kind, reference, []⟩).IsBare :=
  isBare_of (by intro site; cases site <;> simp [trace?]) (by simp [slot?])

theorem exists_openFunctionBlock (decl : FunctionDecl) (reference : Reference)
    (block : FunctionBlock) :
    ∃ fresh, (decl.openBlock reference block).block? block = some fresh ∧ fresh.IsBare ∧
      fresh.takesLines = true := by
  cases block with
  | parameters => exact ⟨_, rfl, isBare_definitions reference, rfl⟩
  | results => exact ⟨_, rfl, isBare_definitions reference, rfl⟩
  | code => exact ⟨_, rfl, isBare_body, rfl⟩

theorem exists_openScenarioBlock (decl : ScenarioDecl) (reference : Reference)
    (block : ScenarioBlock) :
    ∃ fresh, (decl.openBlock reference block).block? block = some fresh ∧ fresh.IsBare ∧
      fresh.takesLines = true := by
  cases block with
  | function => exact ⟨_, rfl, isBare_function decl.name reference, rfl⟩
  | enumeration => exact ⟨_, rfl, isBare_enumeration decl.name reference, rfl⟩
  | table => exact ⟨_, rfl, isBare_table decl.name reference, rfl⟩
  | parameters => exact ⟨_, rfl, isBare_assignments reference, rfl⟩
  | results => exact ⟨_, rfl, isBare_assignments reference, rfl⟩
  | validationTable => exact ⟨_, rfl, isBare_validationTable reference, rfl⟩
  | expectErrors => exact ⟨_, rfl, isBare_expectedErrors .errors reference, rfl⟩
  | expectComponentErrors => exact ⟨_, rfl, isBare_expectedErrors .componentErrors reference, rfl⟩
  | expectExecutionErrors => exact ⟨_, rfl, isBare_expectedErrors .executionErrors reference, rfl⟩

/-! ### Growing by one construct -/

theorem map_getElem?_append {α β : Type} (items : List α) (item : α) (f : α → β) (other : Nat) :
    (items ++ [item])[other]?.map f =
      if other = items.length then some (f item) else items[other]?.map f := by
  rcases Nat.lt_trichotomy other items.length with hlt | rfl | hgt
  · rw [List.getElem?_append_left hlt, if_neg (Nat.ne_of_lt hlt)]
  · simp
  · rw [if_neg (Nat.ne_of_gt hgt), List.getElem?_eq_none (Nat.le_of_lt hgt),
      List.getElem?_eq_none (by simpa using Nat.succ_le_of_lt hgt)]

/-- One more receiver in a free slot, with nothing in it yet. -/
theorem slots_of_fresh {before after : Nat → Option Receiver} {fresh : Receiver} {new : Nat}
    (hafter : ∀ slot, after slot = if slot = new then some fresh else before slot)
    (hfree : before new = none) (hbare : fresh.IsBare) (slot : Nat) :
    after slot = before slot ∨
      before slot = none ∧ ∃ fresh, after slot = some fresh ∧ fresh.IsBare := by
  by_cases hslot : slot = new
  · refine .inr ⟨by rw [hslot, hfree], fresh, ?_, hbare⟩
    rw [hafter, if_pos hslot]
  · exact .inl (by rw [hafter, if_neg hslot])

theorem grows_functionBlock {decl : FunctionDecl} {block : FunctionBlock} (reference : Reference)
    (hnew : decl.block? block = none) :
    (function decl).Grows (function (decl.openBlock reference block)) ⟨[], .block block.slot⟩
      (.line reference) := by
  obtain ⟨fresh, hfresh, hbare, _⟩ := exists_openFunctionBlock decl reference block
  have hblock := block.ofSlot?_slot
  have hreferences (other : FunctionBlock) :
      (decl.openBlock reference block).blockReference? other =
        if other = block then some reference else decl.blockReference? other := by
    cases block <;> cases other <;> rfl
  have hblocks (other : FunctionBlock) : (decl.openBlock reference block).block? other =
      if other = block then some fresh else decl.block? other := by
    rw [← hfresh]
    cases block <;> cases other <;> rfl
  have hnone : decl.blockReference? block = none := by
    cases block <;> simp_all [FunctionDecl.block?, FunctionDecl.blockReference?]
  refine .here ?_ ?_ (fun other => ?_) fun slot => ?_
  · cases block <;> exact .function rfl rfl
  · rw [trace?, hblock, Option.bind_some, hnone, Option.map_none]
  · cases other <;> try rfl
    next slot =>
      rw [trace?, bind_ofSlot? FunctionBlock.slot_of_ofSlot? hblock hreferences]
      simp only [Site.block.injEq, trace?]
      split <;> rfl
  · refine slots_of_fresh (bind_ofSlot? FunctionBlock.slot_of_ofSlot? hblock hblocks) ?_ hbare slot
    rw [hblock, Option.bind_some, hnew]

theorem grows_scenarioBlock {decl : ScenarioDecl} {block : ScenarioBlock} (reference : Reference)
    (hnew : decl.block? block = none) (hfunction : block = .function → decl.function = none) :
    (scenario decl).Grows (scenario (decl.openBlock reference block)) ⟨[], .block block.slot⟩
      (.line reference) := by
  obtain ⟨fresh, hfresh, hbare, _⟩ := exists_openScenarioBlock decl reference block
  have hblock := block.ofSlot?_slot
  have hreferences (other : ScenarioBlock) :
      (decl.openBlock reference block).blockReference? other =
        if other = block then some reference else decl.blockReference? other := by
    cases block <;> cases other <;> rfl
  have hblocks (other : ScenarioBlock) : (decl.openBlock reference block).block? other =
      if other = block then some fresh else decl.block? other := by
    rw [← hfresh]
    cases block <;> cases other <;> rfl
  have hnone : decl.blockReference? block = none := by
    cases block <;> simp_all [ScenarioDecl.block?, ScenarioDecl.blockReference?]
  refine .here ?_ ?_ (fun other => ?_) fun slot => ?_
  · cases block <;> exact .scenario rfl rfl
  · rw [trace?, hblock, Option.bind_some, hnone, Option.map_none]
  · cases other with
    | block slot =>
      rw [trace?, bind_ofSlot? ScenarioBlock.slot_of_ofSlot? hblock hreferences]
      simp only [Site.block.injEq, trace?]
      split <;> rfl
    | testedFunction =>
      cases block with
      | function => simp [trace?, ScenarioDecl.openBlock, hfunction rfl]
      | _ => rfl
    | expectedError => cases block <;> rfl
    | _ => rfl
  · refine slots_of_fresh (bind_ofSlot? ScenarioBlock.slot_of_ofSlot? hblock hblocks) ?_ hbare slot
    rw [hblock, Option.bind_some, hnew]

theorem grows_append {α : Type} (trace : α → Trace) {receiver receiver' : Receiver}
    {site : Nat → Site} {items : List α} (item : α) (halike : receiver.Alike receiver')
    (hsite : ∀ {first second}, site first = site second → first = second)
    (hitems : ∀ index, receiver.trace? (site index) = items[index]?.map trace)
    (hitems' : ∀ index, receiver'.trace? (site index) = (items ++ [item])[index]?.map trace)
    (hothers : ∀ other, (∀ index, other ≠ site index) →
      receiver'.trace? other = receiver.trace? other)
    (hslots : ∀ slot, receiver'.slot? slot = receiver.slot? slot ∨
      receiver.slot? slot = none ∧ ∃ fresh, receiver'.slot? slot = some fresh ∧ fresh.IsBare) :
    receiver.Grows receiver' ⟨[], site items.length⟩ (trace item) := by
  refine .here halike ?_ (fun other => ?_) hslots
  · simp [hitems]
  · by_cases hlisted : ∃ index, other = site index
    · obtain ⟨index, rfl⟩ := hlisted
      rw [hitems', map_getElem?_append, hitems]
      by_cases hindex : index = items.length
      · rw [if_pos hindex, if_pos (by rw [hindex])]
      · rw [if_neg hindex, if_neg fun heq => hindex (hsite heq)]
    · rw [hothers other fun index heq => hlisted ⟨index, heq⟩,
        if_neg fun heq => hlisted ⟨_, heq⟩]

theorem slots_append {α : Type} (items : List α) {item : α} {f : α → Receiver}
    (hbare : (f item).IsBare) (slot : Nat) :
    (items ++ [item])[slot]?.map f = items[slot]?.map f ∨
      items[slot]?.map f = none ∧ ∃ fresh, (items ++ [item])[slot]?.map f = some fresh ∧
        fresh.IsBare :=
  slots_of_fresh (map_getElem?_append items item f) (by simp) hbare slot

theorem grows_inclusion (whole : Document) (item : Inclusion) :
    (document whole).Grows (document { whole with inclusions := whole.inclusions ++ [item] })
      ⟨[], .inclusion whole.inclusions.length⟩ (.line item.reference) := by
  refine grows_append (fun item : Inclusion => .line item.reference) item .document
    Site.inclusion.inj (fun _ => rfl) (fun _ => rfl) (fun other hother => ?_) fun _ => .inl rfl
  cases other <;> first | rfl | exact absurd rfl (hother _)

theorem grows_declaration (whole : Document) {declaration : Declaration}
    (hbare : (ofDeclaration declaration).IsBare) :
    (document whole).Grows
      (document { whole with declarations := whole.declarations ++ [declaration] })
      ⟨[], .declaration whole.declarations.length⟩ (.line declaration.reference) := by
  refine grows_append (fun item : Declaration => .line item.reference) declaration .document
    Site.declaration.inj (fun _ => rfl) (fun _ => rfl) (fun other hother => ?_)
    (slots_append whole.declarations hbare)
  cases other <;> first | rfl | exact absurd rfl (hother _)

theorem grows_case (mark : Mark) (subject : Expr) (cases : List Expr) {item : Expr}
    (hfresh : item.head = item) :
    (expression (.switch mark subject cases)).Grows
      (expression (.switch mark subject (cases ++ [item]))) ⟨[], .case cases.length⟩
      (.line item.reference) := by
  refine grows_append (fun item : Expr => .line item.reference) item (.expression rfl)
    Site.case.inj (fun _ => rfl) (fun _ => rfl) (fun other hother => ?_)
    (slots_append cases (isBare_expression hfresh))
  cases other <;> first | rfl | exact absurd rfl (hother _)

/-- A name for the function that a scenario tests leaves its blocks as they are. -/
theorem grows_testedFunction {decl : ScenarioDecl} (name : String) (reference : Reference)
    (hnew : decl.function = none) :
    (scenario decl).Grows (scenario { decl with function := some (.named name reference) })
      ⟨[], .testedFunction⟩ (.line reference) := by
  have hreferences (block : ScenarioBlock) :
      ({ decl with function := some (.named name reference) } :
        ScenarioDecl).blockReference? block = decl.blockReference? block := by
    cases block <;> simp [ScenarioDecl.blockReference?, ScenarioDecl.inlineFunction?, hnew]
  have hblocks (block : ScenarioBlock) :
      ({ decl with function := some (.named name reference) } : ScenarioDecl).block? block =
        decl.block? block := by
    cases block <;> simp [ScenarioDecl.block?, ScenarioDecl.inlineFunction?, hnew]
  refine .here (.scenario rfl rfl) (by simp [trace?, hnew]) (fun other => ?_) fun slot => .inl ?_
  · cases other with
    | block slot => simp only [trace?, funext hreferences, reduceCtorEq, if_false]
    | _ => rfl
  · simp only [slot?, funext hblocks]

variable {grammar : Grammar} {line : Line} {next after : Nat} {receiver : Receiver}
  {received : Received Receiver}

theorem outcome_here (address : Address) (trace : Trace)
    (hgrows : receiver.Grows received.receiver address trace) (htrace : trace.ComesFrom line)
    (hhosts : receiver.Hosts address)
    (hanswer : received.answer = .leaf ∨ ∃ path opened, address.path? = some path ∧
      received.answer = .child path ∧ received.receiver.at? path = some opened ∧
      opened.takesLines = true) : Outcome line [] receiver received :=
  .grown rfl hhosts hgrows htrace hanswer

theorem outcome_entry {α : Type} (trace : α → Trace) {receiver receiver' : Receiver}
    {items : List α} {item : α} (halike : receiver.Alike receiver')
    (hpath : receiver.linesPath = [])
    (hitems : ∀ index, receiver.trace? (.entry index) = items[index]?.map trace)
    (hitems' : ∀ index, receiver'.trace? (.entry index) = (items ++ [item])[index]?.map trace)
    (hothers : ∀ other, (∀ index, other ≠ .entry index) →
      receiver'.trace? other = receiver.trace? other)
    (hslots : ∀ slot, receiver'.slot? slot = receiver.slot? slot)
    (htrace : (trace item).ComesFrom line) : Outcome line [] receiver (.leaf receiver') := by
  refine outcome_here ⟨[], .entry items.length⟩ (trace item) ?_ htrace ?_ (.inl rfl)
  · exact grows_append trace item halike Site.entry.inj hitems hitems' hothers fun slot =>
      .inl (hslots slot)
  · rw [← hpath]
    exact .site (by simp)

/-- The header of a validation table has a column, which stands in the line. -/
theorem comesFrom_of_validationHeader {cells : List (List Token)}
    {columns : List ValidationColumn} (reference : Reference)
    (hcells : Token.cells? line.tokens = some cells)
    (hcolumns : cells.mapM (TableLine.validationColumn? line) = some columns) :
    (Trace.line ((columns.head?.map ValidationColumn.reference).getD reference)).ComesFrom
      line := by
  obtain ⟨cell, rest, rfl⟩ := List.exists_cons_of_ne_nil (Token.ne_nil_of_cells? hcells)
  simp only [List.mapM_cons, Option.bind_eq_bind, Option.bind_eq_some_iff, Option.pure_def,
    Option.some.injEq] at hcolumns
  obtain ⟨column, hcolumn, _, _, rfl⟩ := hcolumns
  unfold TableLine.validationColumn? at hcolumn
  split at hcolumn
  · simp only [Option.bind_eq_bind, Option.bind_eq_some_iff, Option.pure_def,
      Option.some.injEq] at hcolumn
    obtain ⟨_, _, rfl⟩ := hcolumn
    exact ⟨rfl, rfl⟩
  · cases hcolumn

/-! ### Lines of code -/

/-- What adding an expression to the lines of a body does. -/
structure Added (lines : List Expr) (item : Expr) (received : Received (List Expr))
    (address : Address) : Prop where
  grows : (body lines).Grows (body received.receiver) address (.line item.reference)
  hosts : (body lines).Hosts address
  answer : received.answer = .leaf ∨ ∃ path below, address.path? = some path ∧
    received.answer = .child path ∧ (body received.receiver).at? path = some below ∧
    below.takesLines = true

theorem added_attach {lines : List Expr} {keyword : Keyword} {item : Expr}
    {received : Received (List Expr)} (hfresh : item.head = item) (hblock : item.isBlock = true)
    (h : CodeLine.attach lines keyword item = .ok received) :
    ∃ address, Added lines item received address := by
  unfold CodeLine.attach at h
  split at h
  · next mark condition inner alternatives hlast =>
    split at h
    · cases h
    · cases h
      obtain ⟨earlier, rfl⟩ := List.getLast?_eq_some_iff.1 hlast
      have hchain : (expression (.ifThen mark condition inner alternatives)).Grows
          (expression (.ifThen mark condition inner (alternatives ++ [item])))
          ⟨[], .alternative alternatives.length⟩ (.line item.reference) := by
        refine grows_append (fun item : Expr => .line item.reference) _ (.expression rfl)
          Site.alternative.inj (fun _ => rfl) (fun _ => rfl) (fun other hother => ?_) fun slot => ?_
        · cases other <;> first | rfl | exact absurd rfl (hother _)
        · cases slot with
          | zero => exact .inl rfl
          | succ slot => exact slots_append alternatives (isBare_expression hfresh) slot
      have hslot : (body (earlier ++ [.ifThen mark condition inner alternatives])).slot?
          earlier.length = some (expression (.ifThen mark condition inner alternatives)) := by
        simp [slot?]
      have hlast : (body (earlier ++ [.ifThen mark condition inner alternatives])).Hosts
          ⟨[earlier.length], .alternative alternatives.length⟩ := by
        refine @Hosts.alternative _ earlier.length _ ?_ ?_ <;>
          simp [linesPath, traceAt?_nil, trace?]
      refine ⟨⟨[earlier.length], .alternative alternatives.length⟩, ?_, hlast,
        .inr ⟨[earlier.length, alternatives.length + 1], expression item, rfl, ?_, ?_, hblock⟩⟩
      · simpa [withSlot, Received.child, Address.within] using Grows.inside hslot hchain
      · simp [Received.child]
      · simp [Received.child, slot?]
  · cases h

theorem added_add {lines : List Expr} {item : Expr} {received : Received (List Expr)}
    (hfresh : item.head = item) (h : CodeLine.add lines item = .ok received) :
    ∃ address, Added lines item received address := by
  have hstatement : (body lines).Grows (body (lines ++ [item])) ⟨[], .statement lines.length⟩
      (.line item.reference) := by
    refine grows_append (fun item : Expr => .line item.reference) _ .body Site.statement.inj
      (fun _ => rfl) (fun _ => rfl) (fun other hother => ?_)
      (slots_append lines (isBare_expression hfresh))
    cases other <;> first | rfl | exact absurd rfl (hother _)
  unfold CodeLine.add at h
  split at h
  · exact added_attach hfresh rfl h
  · exact added_attach hfresh rfl h
  · cases h
  · split at h
    · next hblock =>
      cases h
      refine ⟨_, hstatement, .site (by simp), .inr ⟨_, expression item, rfl, rfl, ?_, hblock⟩⟩
      simp [Received.child, slot?]
    · cases h
      exact ⟨_, hstatement, .site (by simp), .inl rfl⟩

theorem slot?_body {whole : Expr} {lines : List Expr} (h : whole.body? = some lines) :
    (expression whole).slot? 0 = some (body lines) := by
  cases whole <;> cases h <;> rfl

theorem withSlot_body {whole : Expr} {lines lines' : List Expr} (h : whole.body? = some lines) :
    (expression whole).withSlot 0 (body lines') = expression (whole.withBody lines') := by
  cases whole <;> rfl

/-- What lies directly below the body of a branch lies directly below the branch. -/
theorem Hosts.within_body {whole : Expr} {lines : List Expr} {address : Address}
    (h : (body lines).Hosts address) (hbody : whole.body? = some lines) :
    (expression whole).Hosts (address.within [0]) := by
  have hpath : (expression whole).linesPath = [0] := by simp [linesPath, hbody]
  have htrace (site : Site) : (expression whole).traceAt? ⟨[0], site⟩ =
      (body lines).traceAt? ⟨[], site⟩ := by
    rw [traceAt?_cons, slot?_body hbody, Option.bind_some]
  cases h with
  | @site site hsite =>
    have hhosts : (expression whole).Hosts ⟨(expression whole).linesPath, site⟩ := .site hsite
    rwa [hpath] at hhosts
  | @alternative last index hlast hnext =>
    have hhosts : (expression whole).Hosts
        ⟨(expression whole).linesPath ++ [last], .alternative index⟩ :=
      .alternative (by rwa [hpath, htrace]) (by rwa [hpath, htrace])
    rwa [hpath] at hhosts

theorem Added.outcome_branch {whole item : Expr} {lines : List Expr}
    {received : Received (List Expr)} {address : Address}
    (h : Added lines item received address) (hbody : whole.body? = some lines)
    (hitem : (Trace.line item.reference).ComesFrom line) :
    Outcome line [] (expression whole)
      ((received.map fun lines => expression (whole.withBody lines)).within 0) := by
  have hslot := slot?_body hbody
  have hbody' : (whole.withBody received.receiver).body? = some received.receiver :=
    Expr.body?_withBody hbody
  have hslot' := slot?_body hbody'
  refine outcome_here (address.within [0]) (.line item.reference) ?_ hitem
    (h.hosts.within_body hbody) ?_
  · have hgrows := Grows.inside hslot h.grows
    rwa [withSlot_body hbody] at hgrows
  · rcases h.answer with hleaf | ⟨path, below, haddress, hanswer, hat, htakes⟩
    · exact .inl (by simp [Received.within, Received.map, hleaf, Answer.within])
    · refine .inr ⟨0 :: path, below, ?_, ?_, ?_, htakes⟩
      · rw [Address.path?_within, haddress]
        rfl
      · simp [Received.within, Received.map, hanswer, Answer.within]
      · simp only [Received.within, Received.map, at?_cons, hslot', Option.bind_some, hat]

theorem Accepts.outcome (h : receiver.Accepts grammar line next received after) :
    Outcome line [] receiver received := by
  have hstart : (Trace.line line.start).ComesFrom line := ⟨rfl, rfl⟩
  cases h with
  | skip hempty => exact .skipped hempty rfl
  | malformedInclusion hline => exact .malformed hline rfl rfl rfl
  | @inclusion document next fileName =>
    exact outcome_here _ _ (grows_inclusion document ⟨fileName, line.start, false⟩) hstart
      (.site (by simp)) (.inl rfl)
  | @declaration document keyword name declaration next hname hsort =>
    obtain ⟨hbare, hplace⟩ := isBare_emptyDeclaration hsort
    have hslot : (document.declarations ++ [declaration])[document.declarations.length]?.map
        ofDeclaration = some (ofDeclaration declaration) := by simp
    refine outcome_here _ _ (grows_declaration document hbare) (hplace ▸ hstart)
      (.site (by simp)) (.inr ⟨_, ofDeclaration declaration, rfl, rfl, ?_, ?_⟩)
    · exact congrArg (Option.bind · fun inner => inner.at? []) hslot
    · cases declaration <;> rfl
  | @functionBlock decl block next hnew =>
    obtain ⟨fresh, hfresh, _, htakes⟩ := exists_openFunctionBlock decl line.start block
    refine outcome_here _ _ (grows_functionBlock line.start hnew) hstart (.site (by simp))
      (.inr ⟨[block.slot], fresh, rfl, rfl, ?_, htakes⟩)
    cases block <;> exact congrArg (Option.bind · fun inner => inner.at? []) hfresh
  | definition hread =>
    refine outcome_entry (fun item : Definition => .line item.reference) (.definitions rfl) rfl
      (fun _ => rfl) (fun _ => rfl) (fun other hother => ?_) (fun _ => rfl)
      (Grammar.comesFrom_of_read hread)
    cases other <;> first | rfl | exact absurd rfl (hother _)
  | member hread =>
    refine outcome_entry (fun item : Definition => .line item.reference) (.record rfl rfl) rfl
      (fun _ => rfl) (fun _ => rfl) (fun other hother => ?_) (fun _ => rfl)
      (Grammar.comesFrom_of_read hread)
    cases other <;> first | rfl | exact absurd rfl (hother _)
  | enumMember =>
    refine outcome_entry (fun item : EnumMember => .line item.reference) (.enumeration rfl rfl) rfl
      (fun _ => rfl) (fun _ => rfl) (fun other hother => ?_) (fun _ => rfl) hstart
    cases other <;> first | rfl | exact absurd rfl (hother _)
  | @tableHeader table cells columns next hcells hheader =>
    refine outcome_here ⟨[], .header⟩ (.line line.start) ?_ hstart (.site (by simp)) (.inl rfl)
    refine .here (.table rfl rfl) ?_ (fun other => ?_) fun _ => .inl rfl
    · rw [trace?, hheader, Option.map_none]
    · cases other <;> rfl
  | tableRow =>
    refine outcome_entry (fun item : TableRow => .line item.reference) (.table rfl rfl) rfl
      (fun _ => rfl) (fun _ => rfl) (fun other hother => ?_) (fun _ => rfl) hstart
    cases other <;> first | rfl | exact absurd rfl (hother _)
  | @testedFunction decl name token next hnew =>
    exact outcome_here _ _ (grows_testedFunction name (line.tokenReference token) hnew) ⟨rfl, rfl⟩
      (.site (by simp)) (.inl rfl)
  | @expectedError decl message next hnew =>
    refine outcome_here ⟨[], .expectedError⟩ (.line line.start) ?_ hstart (.site (by simp))
      (.inl rfl)
    refine .here (.scenario rfl rfl) (by simp [trace?, hnew]) (fun other => ?_) fun _ => .inl rfl
    cases other <;> rfl
  | @scenarioBlock decl block next hnew hfunction =>
    obtain ⟨fresh, hfresh, _, htakes⟩ := exists_openScenarioBlock decl line.start block
    refine outcome_here _ _ (grows_scenarioBlock line.start hnew hfunction) hstart (.site (by simp))
      (.inr ⟨[block.slot], fresh, rfl, rfl, ?_, htakes⟩)
    cases block <;> exact congrArg (Option.bind · fun inner => inner.at? []) hfresh
  | assignment hread =>
    refine outcome_entry (fun item : Expr => .line item.reference) (.assignments rfl) rfl
      (fun _ => rfl) (fun _ => rfl) (fun other hother => ?_) (fun _ => rfl)
      (Grammar.comesFrom_of_read hread)
    cases other <;> first | rfl | exact absurd rfl (hother _)
  | @validationHeader table cells columns next hcells hheader hcolumns =>
    refine outcome_here ⟨[], .header⟩ _ ?_
      (comesFrom_of_validationHeader table.reference hcells hcolumns) (.site (by simp)) (.inl rfl)
    refine .here (.validationTable rfl) ?_ (fun other => ?_) fun _ => .inl rfl
    · rw [trace?, ValidationTable.headerReference?, hheader, Option.map_none, Option.map_none]
    · cases other <;> rfl
  | validationRow =>
    refine outcome_entry (fun item : TableRow => .line item.reference) (.validationTable rfl) rfl
      (fun _ => rfl) (fun _ => rfl) (fun other hother => ?_) (fun _ => rfl) hstart
    cases other <;> first | rfl | exact absurd rfl (hother _)
  | message htokens hmessage =>
    refine outcome_entry Trace.message (.expectedErrors rfl) rfl (fun _ => rfl) (fun _ => rfl)
      (fun other hother => ?_) (fun _ => rfl) ⟨_, htokens, hmessage⟩
    cases other <;> first | rfl | exact absurd rfl (hother _)
  | code hread hadd =>
    obtain ⟨address, hadded⟩ := added_add (Grammar.head_of_read hread) hadd
    exact outcome_here address _ hadded.grows (Grammar.comesFrom_of_read hread) hadded.hosts
      hadded.answer
  | branch hbody hread hadd =>
    obtain ⟨address, hadded⟩ := added_add (Grammar.head_of_read hread) hadd
    exact hadded.outcome_branch hbody (Grammar.comesFrom_of_read hread)
  | @case mark subject cases item received next after hread hadd =>
    have hfresh := Grammar.head_of_read hread
    unfold CodeLine.addCase at hadd
    split at hadd
    · cases hadd
      next mark' value lines =>
      refine outcome_here _ _ (grows_case mark subject cases hfresh)
        (Grammar.comesFrom_of_read hread) (.site (by simp))
        (.inr ⟨[cases.length], expression (.case mark' value lines), rfl, rfl, ?_, rfl⟩)
      simp [Received.map, Received.child, slot?]
    · cases hadd

/-- What a line that is taken adds, seen from around the receiver that takes it. -/
theorem Takes.outcome {path : SlotPath}
    (h : Takes grammar line path receiver next received after) :
    Outcome line path receiver received := by
  induction h with
  | here haccepted => exact haccepted.outcome
  | @inside receiver slot path inner next received after hslot htaken ih =>
    cases ih with
    | skipped hempty hreceived =>
      refine .skipped hempty ?_
      rw [hreceived, Received.map, Received.leaf, withSlot_self hslot, Received.leaf]
    | malformed _ _ hinner =>
      exact absurd hinner (replaces_of_slot? hslot (.refl inner)).ne_document
    | @grown below address trace hbelow hhosts hgrows htrace hanswer =>
      refine .grown (by rw [at?_cons, hslot, Option.bind_some, hbelow]) hhosts
        (.inside hslot hgrows) htrace (hanswer.imp id ?_)
      rintro ⟨further, opened, haddress, hchild, hat, htakes⟩
      refine ⟨further, opened, haddress, hchild, ?_, htakes⟩
      have hinner := slot?_withSlot hslot hgrows.alike slot
      rw [if_pos rfl] at hinner
      rw [List.cons_append, Received.map, at?_cons, hinner, Option.bind_some, hat]

end Receiver

end DecisionLang
