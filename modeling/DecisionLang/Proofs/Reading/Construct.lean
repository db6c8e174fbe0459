import DecisionLang.Proofs.Reading.Slots

/-!
# Constructs and their addresses

A construct is what one line contributes to a document: a declaration, an inclusion, a block, an
entry or the header of one, a statement, an alternative or a case. Its address is the path to the
receiver that holds it, and its site there. `Receiver.Grows` says that one construct is added and
nothing else changes, seen from the receiver that gets it and from those around it. Main statements:
`Receiver.Grows.traceAt?_eq` and `Receiver.Grows.at?`.
-/

namespace DecisionLang

/-- Where a receiver holds a construct. -/
inductive Site where
  | declaration (index : Nat)
  | inclusion (index : Nat)
  /-- A block of a function or scenario, by its slot. -/
  | block (slot : Nat)
  /-- A definition, a member, a row, an assignment or a message. -/
  | entry (index : Nat)
  | header
  | testedFunction
  | expectedError
  | statement (index : Nat)
  | alternative (index : Nat)
  | case (index : Nat)
  deriving DecidableEq

namespace Site

/-- The slot of a construct that may receive lines itself. -/
def slot? : Site → Option Nat
  | declaration index | block index | statement index | case index => some index
  | alternative index => some (index + 1)
  | _ => none

/-- An earlier and a later place in one list. -/
inductive Before : Site → Site → Prop
  | declaration {first second : Nat} (h : first < second) :
      Before (declaration first) (declaration second)
  | inclusion {first second : Nat} (h : first < second) :
      Before (inclusion first) (inclusion second)
  | entry {first second : Nat} (h : first < second) : Before (entry first) (entry second)
  | statement {first second : Nat} (h : first < second) :
      Before (statement first) (statement second)
  | alternative {first second : Nat} (h : first < second) :
      Before (alternative first) (alternative second)
  | case {first second : Nat} (h : first < second) : Before (case first) (case second)

end Site

/-- A site of the receiver at a path. -/
structure Address where
  holder : SlotPath
  site : Site
  deriving DecidableEq

namespace Address

def path? (address : Address) : Option SlotPath :=
  address.site.slot?.map fun slot => address.holder ++ [slot]

def within (path : SlotPath) (address : Address) : Address :=
  { address with holder := path ++ address.holder }

@[simp] theorem within_nil (address : Address) : address.within [] = address := rfl

theorem path?_within (path : SlotPath) (address : Address) :
    (address.within path).path? = address.path?.map (path ++ ·) := by
  unfold path? within
  cases address.site.slot? <;> simp

end Address

/-- What a construct keeps of the line it came from. -/
inductive Trace where
  | line (reference : Reference)
  | message (text : String)
  deriving DecidableEq

namespace FunctionDecl

def blockReference? (decl : FunctionDecl) : FunctionBlock → Option Reference
  | .parameters => decl.parameters.map VariableBlock.reference
  | .results => decl.results.map VariableBlock.reference
  | .code => decl.code.map CodeBlock.reference

end FunctionDecl

namespace ScenarioDecl

def blockReference? (decl : ScenarioDecl) : ScenarioBlock → Option Reference
  | .function => decl.inlineFunction?.map FunctionDecl.reference
  | .enumeration => decl.enumeration.map EnumDecl.reference
  | .table => decl.table.map TableDecl.reference
  | .parameters => decl.parameters.map AssignmentBlock.reference
  | .results => decl.results.map AssignmentBlock.reference
  | .validationTable => decl.validationTable.map ValidationTable.reference
  | .expectErrors => decl.expectErrors.map ExpectedErrors.reference
  | .expectComponentErrors => decl.expectComponentErrors.map ExpectedErrors.reference
  | .expectExecutionErrors => decl.expectExecutionErrors.map ExpectedErrors.reference

end ScenarioDecl

namespace ValidationTable

/-- Place of the header. It has at least one column, which says where. -/
def headerReference? (table : ValidationTable) : Option Reference :=
  table.header.map fun columns =>
    (columns.head?.map ValidationColumn.reference).getD table.reference

end ValidationTable

namespace Receiver

/-- The construct at a site of a receiver. -/
def trace? : Receiver → Site → Option Trace
  | document whole, .declaration index => whole.declarations[index]?.map (.line ·.reference)
  | document whole, .inclusion index => whole.inclusions[index]?.map (.line ·.reference)
  | function decl, .block slot =>
    ((FunctionBlock.ofSlot? slot).bind decl.blockReference?).map .line
  | definitions block, .entry index => block.definitions[index]?.map (.line ·.reference)
  | enumeration decl, .entry index => decl.members[index]?.map (.line ·.reference)
  | table decl, .header => decl.header.map (.line ·.reference)
  | table decl, .entry index => decl.rows[index]?.map (.line ·.reference)
  | record decl, .entry index => decl.members[index]?.map (.line ·.reference)
  | scenario decl, .block slot =>
    ((ScenarioBlock.ofSlot? slot).bind decl.blockReference?).map .line
  | scenario decl, .testedFunction =>
    match decl.function with
    | some (.named _ reference) => some (.line reference)
    | _ => none
  | scenario decl, .expectedError => decl.expectError.map (.line ·.reference)
  | assignments block, .entry index => block.assignments[index]?.map (.line ·.reference)
  | validationTable item, .header => item.headerReference?.map .line
  | validationTable item, .entry index => item.rows[index]?.map (.line ·.reference)
  | expectedErrors block, .entry index => block.messages[index]?.map .message
  | body lines, .statement index => lines[index]?.map (.line ·.reference)
  | expression (.ifThen _ _ _ alternatives), .alternative index =>
    alternatives[index]?.map (.line ·.reference)
  | expression (.switch _ _ cases), .case index => cases[index]?.map (.line ·.reference)
  | _, _ => none

/-- The construct at an address. -/
def traceAt? (receiver : Receiver) (address : Address) : Option Trace :=
  (receiver.at? address.holder).bind fun holder => holder.trace? address.site

def IsBare (receiver : Receiver) : Prop := ∀ address, receiver.traceAt? address = none

variable {receiver receiver' inner inner' : Receiver} {slot : Nat} {site : Site}

theorem traceAt?_cons (path : SlotPath) :
    receiver.traceAt? ⟨slot :: path, site⟩ =
      (receiver.slot? slot).bind fun inner => inner.traceAt? ⟨path, site⟩ := by
  simp [traceAt?, Option.bind_assoc]

theorem traceAt?_nil : receiver.traceAt? ⟨[], site⟩ = receiver.trace? site := rfl

/-! ### Receivers put back into their slots -/

theorem bind_ofSlot? {α β : Type} [DecidableEq α] {slotOf : α → Nat} {ofSlot? : Nat → Option α}
    (hslot : ∀ {slot block}, ofSlot? slot = some block → slotOf block = slot) {block : α}
    {value : β} {before after : α → Option β} (hblock : ofSlot? (slotOf block) = some block)
    (h : ∀ other, after other = if other = block then some value else before other) (slot : Nat) :
    (ofSlot? slot).bind after =
      if slot = slotOf block then some value else (ofSlot? slot).bind before := by
  cases hother : ofSlot? slot with
  | none =>
    rw [if_neg (fun heq => by simp [heq, hblock] at hother)]
    rfl
  | some other =>
    have hsame : slot = slotOf block ↔ other = block := by
      refine ⟨fun heq => ?_, fun heq => heq ▸ (hslot hother).symm⟩
      rw [heq, hblock] at hother
      exact (Option.some.inj hother).symm
    simp only [Option.bind_some, h, hsame]

theorem functionBlock?_withBlock {decl : FunctionDecl} {block : FunctionBlock}
    (hblock : decl.block? block = some inner) (halike : inner.Alike inner') :
    (∀ other, (decl.withBlock block inner').block? other =
      if other = block then some inner' else decl.block? other) ∧
    ∀ other, (decl.withBlock block inner').blockReference? other = decl.blockReference? other := by
  cases block <;> obtain ⟨part, hpart, rfl⟩ := Option.map_eq_some_iff.1 hblock <;> cases halike <;>
    refine ⟨fun other => ?_, fun other => ?_⟩ <;> cases other <;>
    simp_all [FunctionDecl.withBlock, FunctionDecl.block?, FunctionDecl.blockReference?]

theorem scenarioBlock?_withBlock {decl : ScenarioDecl} {block : ScenarioBlock}
    (hblock : decl.block? block = some inner) (halike : inner.Alike inner') :
    (∀ other, (decl.withBlock block inner').block? other =
      if other = block then some inner' else decl.block? other) ∧
    ∀ other, (decl.withBlock block inner').blockReference? other = decl.blockReference? other := by
  cases block <;> obtain ⟨part, hpart, rfl⟩ := Option.map_eq_some_iff.1 hblock <;> cases halike <;>
    refine ⟨fun other => ?_, fun other => ?_⟩ <;> cases other <;>
    simp_all [ScenarioDecl.withBlock, ScenarioDecl.block?, ScenarioDecl.blockReference?,
      ScenarioDecl.inlineFunction?]

theorem withBlock_functionBlock? {decl : FunctionDecl} {block : FunctionBlock}
    (h : decl.block? block = some inner) : decl.withBlock block inner = decl := by
  cases block <;> obtain ⟨part, hpart, rfl⟩ := Option.map_eq_some_iff.1 h
  case code =>
    obtain ⟨name, place, parameters, results, code⟩ := decl
    cases hpart
    rfl
  all_goals simp [FunctionDecl.withBlock, ← hpart]

theorem withBlock_scenarioBlock? {decl : ScenarioDecl} {block : ScenarioBlock}
    (h : decl.block? block = some inner) : decl.withBlock block inner = decl := by
  cases block <;> obtain ⟨part, hpart, rfl⟩ := Option.map_eq_some_iff.1 h
  case function => simp [ScenarioDecl.withBlock, ← ScenarioDecl.function_of_inlineFunction? hpart]
  all_goals simp [ScenarioDecl.withBlock, ← hpart]

theorem set_getElem?_self {α : Type} {items : List α} {index : Nat} {item : α}
    (h : items[index]? = some item) : items.set index item = items := by
  obtain ⟨_, rfl⟩ := List.getElem?_eq_some_iff.1 h
  exact List.set_getElem_self _

theorem withSlot_self (hslot : receiver.slot? slot = some inner) :
    receiver.withSlot slot inner = receiver := by
  cases holds_of_slot? hslot with
  | @declaration _ _ declaration hdeclaration =>
    cases declaration <;>
      simp only [withSlot, ofDeclaration, declaration?, set_getElem?_self hdeclaration]
  | @functionBlock _ block _ hblock =>
    simp only [withSlot, block.ofSlot?_slot, Option.elim_some, withBlock_functionBlock? hblock]
  | @scenarioBlock _ block _ hblock =>
    simp only [withSlot, block.ofSlot?_slot, Option.elim_some, withBlock_scenarioBlock? hblock]
  | line hitem | alternative hitem => simp only [withSlot, set_getElem?_self hitem]
  | branchBody hbody => rw [withSlot, Expr.withBody_self hbody]
  | case hitem => cases slot <;> simp only [withSlot, set_getElem?_self hitem]

theorem map_getElem?_set {α : Type} {items : List α} {index : Nat} {item item' : α}
    (h : items[index]? = some item) (f : α → Receiver) (other : Nat) :
    (items.set index item')[other]?.map f =
      if other = index then some (f item') else items[other]?.map f := by
  obtain ⟨hlt, _⟩ := List.getElem?_eq_some_iff.1 h
  rw [List.getElem?_set]
  by_cases hother : other = index
  · subst hother
    simp [hlt]
  · rw [if_neg (Ne.symm hother), if_neg hother]

/-- What a receiver holds in its slots after one of the receivers there has changed. -/
theorem slot?_withSlot (hslot : receiver.slot? slot = some inner) (halike : inner.Alike inner')
    (other : Nat) :
    (receiver.withSlot slot inner').slot? other =
      if other = slot then some inner' else receiver.slot? other := by
  cases holds_of_slot? hslot with
  | declaration hdeclaration =>
    obtain ⟨declaration', rfl, hinner, _⟩ := ofDeclaration_alike halike
    simp only [withSlot, hinner, slot?]
    exact map_getElem?_set hdeclaration ofDeclaration other
  | @functionBlock _ block _ hblock =>
    simp only [withSlot, block.ofSlot?_slot, Option.elim_some, slot?]
    exact bind_ofSlot? FunctionBlock.slot_of_ofSlot? block.ofSlot?_slot
      (functionBlock?_withBlock hblock halike).1 other
  | @scenarioBlock _ block _ hblock =>
    simp only [withSlot, block.ofSlot?_slot, Option.elim_some, slot?]
    exact bind_ofSlot? ScenarioBlock.slot_of_ofSlot? block.ofSlot?_slot
      (scenarioBlock?_withBlock hblock halike).1 other
  | line hitem =>
    cases halike with
    | expression hhead =>
      simp only [withSlot, slot?]
      exact map_getElem?_set hitem expression other
  | @branchBody whole _ hbody =>
    cases halike
    cases whole <;> cases hbody <;> cases other <;> simp [withSlot, slot?, Expr.withBody]
  | alternative hitem =>
    cases halike with
    | expression hhead =>
      cases other with
      | zero => rfl
      | succ other => simpa [withSlot, slot?] using map_getElem?_set hitem expression other
  | case hitem =>
    cases halike with
    | expression hhead => cases slot <;> exact map_getElem?_set hitem expression other

theorem Alike.trace_expression {item item' : Expr} (h : item'.head = item.head) :
    item'.reference = item.reference := by
  have hhead (whole : Expr) : whole.head.reference = whole.reference := by cases whole <;> rfl
  rw [← hhead item', h, hhead]

theorem map_trace_getElem?_set {α : Type} {items : List α} {index : Nat} {item item' : α}
    {trace : α → Trace} (h : items[index]? = some item) (htrace : trace item' = trace item)
    (other : Nat) : (items.set index item')[other]?.map trace = items[other]?.map trace := by
  obtain ⟨hlt, hitem⟩ := List.getElem?_eq_some_iff.1 h
  rw [List.getElem?_set]
  by_cases hother : index = other
  · subst hother
    simp [hlt, htrace, hitem]
  · rw [if_neg hother]

theorem trace?_scenarioWithBlock {decl : ScenarioDecl} {block : ScenarioBlock}
    (hblock : decl.block? block = some inner) (halike : inner.Alike inner') (site : Site) :
    (scenario (decl.withBlock block inner')).trace? site = (scenario decl).trace? site := by
  have hblocks := (scenarioBlock?_withBlock hblock halike).2
  cases site with
  | block => simp only [trace?, funext hblocks]
  | testedFunction =>
    cases block <;> obtain ⟨part, hpart, rfl⟩ := Option.map_eq_some_iff.1 hblock <;> cases halike
    case function =>
      simp only [trace?, ScenarioDecl.withBlock, ScenarioDecl.function_of_inlineFunction? hpart]
    all_goals rfl
  | expectedError =>
    cases block <;> obtain ⟨part, hpart, rfl⟩ := Option.map_eq_some_iff.1 hblock <;>
      cases halike <;> rfl
  | _ => rfl

/-- What a receiver holds stays where it is if one of the receivers in its slots changes. -/
theorem trace?_withSlot (hslot : receiver.slot? slot = some inner) (halike : inner.Alike inner')
    (site : Site) : (receiver.withSlot slot inner').trace? site = receiver.trace? site := by
  cases holds_of_slot? hslot with
  | declaration hdeclaration =>
    obtain ⟨declaration', rfl, hinner, _, hplace⟩ := ofDeclaration_alike halike
    simp only [withSlot, hinner]
    cases site <;> try rfl
    exact map_trace_getElem?_set hdeclaration (congrArg Trace.line hplace) _
  | @functionBlock _ block _ hblock =>
    simp only [withSlot, block.ofSlot?_slot, Option.elim_some]
    cases site <;> try rfl
    simp only [trace?, funext (functionBlock?_withBlock hblock halike).2]
  | @scenarioBlock _ block _ hblock =>
    simp only [withSlot, block.ofSlot?_slot, Option.elim_some]
    exact trace?_scenarioWithBlock hblock halike site
  | line hitem | alternative hitem =>
    cases halike with
    | expression hhead =>
      cases site <;> try rfl
      exact map_trace_getElem?_set hitem (congrArg Trace.line (Alike.trace_expression hhead)) _
  | @branchBody whole _ hbody =>
    cases halike
    cases whole <;> cases hbody <;> cases site <;> rfl
  | case hitem =>
    cases halike with
    | expression hhead =>
      cases slot <;> cases site <;> try rfl
      all_goals
        exact map_trace_getElem?_set hitem (congrArg Trace.line (Alike.trace_expression hhead)) _

/-! ### Growing -/

/-- One construct is added to a receiver, or to one below it, and nothing else changes. A construct
that may receive lines has nothing in it yet. -/
inductive Grows : Receiver → Receiver → Address → Trace → Prop
  | here {receiver receiver' : Receiver} {site : Site} {trace : Trace}
      (halike : receiver.Alike receiver') (hnew : receiver.trace? site = none)
      (htrace : ∀ other, receiver'.trace? other =
        if other = site then some trace else receiver.trace? other)
      (hslots : ∀ slot, receiver'.slot? slot = receiver.slot? slot ∨
        receiver.slot? slot = none ∧ ∃ fresh, receiver'.slot? slot = some fresh ∧ fresh.IsBare) :
      Grows receiver receiver' ⟨[], site⟩ trace
  | inside {receiver inner inner' : Receiver} {slot : Nat} {address : Address} {trace : Trace}
      (hslot : receiver.slot? slot = some inner) (hgrows : Grows inner inner' address trace) :
      Grows receiver (receiver.withSlot slot inner') (address.within [slot]) trace

variable {address : Address} {trace : Trace}

theorem Grows.alike (h : receiver.Grows receiver' address trace) : receiver.Alike receiver' := by
  induction h with
  | here halike => exact halike
  | inside hslot _ ih => exact (replaces_of_slot? hslot ih).alike

theorem Grows.traceAt?_address (h : receiver.Grows receiver' address trace) :
    receiver.traceAt? address = none := by
  induction h with
  | here _ hnew => exact hnew
  | inside hslot _ ih =>
    rw [Address.within, List.singleton_append, traceAt?_cons, hslot]
    exact ih

/-- Every other address holds what it held before. -/
theorem Grows.traceAt?_eq (h : receiver.Grows receiver' address trace) (other : Address) :
    receiver'.traceAt? other =
      if other = address then some trace else receiver.traceAt? other := by
  obtain ⟨holder, site⟩ := other
  induction h generalizing holder with
  | here _ _ htrace hslots =>
    cases holder with
    | nil => simp only [traceAt?_nil, htrace, Address.mk.injEq, true_and]
    | cons slot path =>
      rw [if_neg (by simp), traceAt?_cons, traceAt?_cons]
      rcases hslots slot with hsame | ⟨hnone, fresh, hfresh, hbare⟩
      · rw [hsame]
      · rw [hnone, hfresh, Option.bind_some, hbare]
        rfl
  | @inside receiver inner inner' slot address trace hslot hgrows ih =>
    cases holder with
    | nil =>
      rw [if_neg (by simp [Address.within]), traceAt?_nil, traceAt?_nil,
        trace?_withSlot hslot hgrows.alike]
    | cons slot' path =>
      rw [traceAt?_cons, slot?_withSlot hslot hgrows.alike, traceAt?_cons]
      by_cases hslot' : slot' = slot
      · subst hslot'
        rw [if_pos rfl, Option.bind_some, ih, hslot, Option.bind_some]
        cases address
        simp [Address.within]
      · rw [if_neg hslot', if_neg (by simp [Address.within, hslot'])]

theorem Grows.at? (h : receiver.Grows receiver' address trace) {path : SlotPath}
    {below : Receiver} (hbelow : receiver.at? path = some below) :
    ∃ below', receiver'.at? path = some below' ∧ below.Alike below' := by
  induction h generalizing path with
  | here halike _ _ hslots =>
    cases path with
    | nil =>
      cases hbelow
      exact ⟨_, rfl, halike⟩
    | cons slot path =>
      obtain ⟨inner, hinner, hbelow⟩ := Option.bind_eq_some_iff.1 hbelow
      rcases hslots slot with hsame | ⟨hnone, _⟩
      · exact ⟨below, by rw [at?_cons, hsame, hinner]; exact hbelow, .refl below⟩
      · rw [hinner] at hnone
        cases hnone
  | @inside receiver inner inner' slot address trace hslot hgrows ih =>
    cases path with
    | nil =>
      cases hbelow
      exact ⟨_, rfl, (replaces_of_slot? hslot hgrows.alike).alike⟩
    | cons slot' path =>
      obtain ⟨found, hfound, hbelow⟩ := Option.bind_eq_some_iff.1 hbelow
      rw [at?_cons, slot?_withSlot hslot hgrows.alike]
      by_cases hslot' : slot' = slot
      · subst hslot'
        rw [hslot] at hfound
        cases hfound
        rw [if_pos rfl]
        exact ih hbelow
      · exact ⟨below, by rw [if_neg hslot', hfound]; exact hbelow, .refl below⟩

end Receiver

end DecisionLang
