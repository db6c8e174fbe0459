import DecisionLang.Proofs.Reading.Growth
import DecisionLang.Proofs.Reading.Numbering

/-!
# Only well-formed trees are read

Expressions are well-formed when they are read, with nothing below them, and lines that are added to
a receiver keep it so: a line that is refused changes nothing, and one that is taken is checked
where it is added. Main statements: `Grammar.wellFormed_of_gives` and `Receiver.Takes.wellFormed`.
-/

namespace DecisionLang

open Numbered

/-! ### Expressions -/

namespace Expr

variable {item item' : Expr}

theorem eq_of_head {α : Type} {f : Expr → α} (hf : ∀ whole : Expr, f whole.head = f whole)
    (h : item'.head = item.head) : f item' = f item := by
  rw [← hf item', h, hf item]

theorem isCase_of_head (h : item'.head = item.head) : item'.isCase = item.isCase :=
  eq_of_head (fun whole => by cases whole <;> rfl) h

theorem isElseIf_of_head (h : item'.head = item.head) : item'.isElseIf = item.isElseIf :=
  eq_of_head (fun whole => by cases whole <;> rfl) h

theorem isOtherwise_of_head (h : item'.head = item.head) : item'.isOtherwise = item.isOtherwise :=
  eq_of_head (fun whole => by cases whole <;> rfl) h

theorem standsAlone_of_head (h : item'.head = item.head) : item'.standsAlone = item.standsAlone :=
  eq_of_head (fun whole => by cases whole <;> rfl) h

end Expr

/-- An expression with nothing below it is well-formed as far as its operands are. -/
theorem Node.allWellFormed_of_linesBelow {whole : Expr} (hbelow : whole.linesBelow = [])
    (hform : whole.HasForm) (hoperands : ∀ operand ∈ whole.operands,
      operand.linesBelow = [] ∧ (expression operand).AllWellFormed) :
    (expression whole).AllWellFormed := by
  refine (allWellFormed_expression whole).2 ⟨⟨hform, fun operand h => (hoperands operand h).1⟩,
    fun lines hbody line hline => ?_, fun part hpart => ?_⟩
  · cases whole <;> cases hbody <;> simp_all [Expr.linesBelow]
  · rw [Expr.children_eq, hbelow, List.append_nil] at hpart
    exact (hoperands part hpart).2

namespace Grammar

variable {grammar : Grammar} {line : Line} {tokens : List Token} {next after : Nat} {result : Expr}

theorem isSome_of_inOrder {α β : Type} {reads : α → Nat → β → Nat → Prop} {item? : Option α}
    {result? : Option β} (h : InOrder reads item?.toList next result?.toList after) :
    result?.isSome = item?.isSome := by
  have hlength := h.length_eq
  cases item? <;> cases result? <;> first | rfl | cases hlength

theorem wellFormed_of_gives (hnames : Token.HasIdentifiers tokens)
    (h : (grammar.read line tokens).Gives next result after) :
    result.linesBelow = [] ∧ (Node.expression result).AllWellFormed := by
  refine read_induction_of_parts Token.HasIdentifiers (motive := fun _ _ result _ =>
    result.linesBelow = [] ∧ (Node.expression result).AllWellFormed) ?_ ?_ hnames h
  · intro tokens shape hshape hnames part hpart
    exact hnames.subset ((found_of_recognize? hshape).subset_of_mem_parts hpart)
  intro tokens next result after hnames hbuilds
  cases hbuilds with
  | @branch kind first subject decision after hshape hsubject =>
    have hbelow : (Shape.branchOf kind ⟨after, line.tokenReference first⟩ decision).linesBelow =
        [] := by cases kind <;> rfl
    refine ⟨hbelow, Node.allWellFormed_of_linesBelow hbelow ?_ ?_⟩
    · cases kind <;> simp [Shape.branchOf, Expr.HasForm, Expr.IsChain.nil]
    · cases kind <;> simpa [Shape.branchOf, Expr.operands] using hsubject
  | @fallback kind first hshape =>
    cases kind <;> exact ⟨rfl, Node.allWellFormed_of_linesBelow rfl trivial (List.forall_mem_nil _)⟩
  | spreadAssignment hshape hinvoked =>
    refine ⟨rfl, Node.allWellFormed_of_linesBelow rfl rfl ?_⟩
    exact List.forall_mem_singleton.2 hinvoked
  | declaration hshape =>
    cases found_of_recognize? hshape with
    | declaration _ hname =>
      exact ⟨rfl, Node.allWellFormed_of_linesBelow rfl (hnames _ (by simp) _ hname) (List.forall_mem_nil _)⟩
  | declarationWith hshape hvalue =>
    cases found_of_recognize? hshape with
    | declarationWith _ hname =>
      refine ⟨rfl, Node.allWellFormed_of_linesBelow rfl (hnames _ (by simp) _ hname) ?_⟩
      exact List.forall_mem_singleton.2 hvalue
  | @assignment first target sign value offered after hshape hvalue =>
    have htarget : (Shape.targetOf target ⟨next, line.tokenReference first⟩).linesBelow = [] ∧
        (Node.expression (Shape.targetOf target
          ⟨next, line.tokenReference first⟩)).AllWellFormed := by
      cases target <;> exact ⟨rfl, Node.allWellFormed_of_linesBelow rfl trivial (List.forall_mem_nil _)⟩
    refine ⟨rfl, Node.allWellFormed_of_linesBelow rfl trivial ?_⟩
    exact List.forall_mem_cons.2 ⟨htarget, List.forall_mem_singleton.2 hvalue⟩
  | binary hshape hleft hright =>
    refine ⟨rfl, Node.allWellFormed_of_linesBelow rfl trivial ?_⟩
    exact List.forall_mem_cons.2 ⟨hleft, List.forall_mem_singleton.2 hright⟩
  | @lookUp first word callTokens inner function tableToken table pair? result? value search
      discriminator between found discriminatorColumn searchColumn resultColumn after hshape
      hobject hfunction hpair hresult harguments htable hdiscriminator hvalue hcolumn hsearch
      hresultColumn =>
    refine ⟨rfl, Node.allWellFormed_of_linesBelow rfl ⟨?_, ?_, ?_⟩ ?_⟩
    · rw [isSome_of_inOrder hdiscriminator, Option.isSome_map, hpair]
    · have hcolumns := congrArg Option.isSome hcolumn
      rw [Option.isSome_map, Option.isSome_map] at hcolumns
      rw [← hcolumns, hpair]
    · have hcolumns := congrArg Option.isSome hresultColumn
      rw [Option.isSome_map, Option.isSome_map] at hcolumns
      rw [← hcolumns, ← hresult, Option.not_isNone]
    · refine List.forall_mem_append.2 ⟨?_, List.forall_mem_singleton.2 hvalue⟩
      exact hdiscriminator.forall_mem id
  | call hshape hobject htable harguments =>
    exact ⟨rfl, Node.allWellFormed_of_linesBelow rfl trivial (harguments.forall_mem id)⟩
  | group hshape hinner | indexed hshape hinner | extract hshape _ _ hinner =>
    refine ⟨rfl, Node.allWellFormed_of_linesBelow rfl trivial ?_⟩
    exact List.forall_mem_singleton.2 hinner
  | make | spread | path | literal | name =>
    exact ⟨rfl, Node.allWellFormed_of_linesBelow rfl trivial (List.forall_mem_nil _)⟩

theorem wellFormed_cells {cells : List (List Token)} {values : List Expr}
    (hnames : ∀ cell ∈ cells, Token.HasIdentifiers cell)
    (h : InOrder (fun cell => (grammar.read line cell).Gives) cells next values after) :
    ∀ value ∈ values, value.linesBelow = [] ∧ (Node.expression value).AllWellFormed := by
  have hread : InOrder (fun _ _ value _ => value.linesBelow = [] ∧
      (Node.expression value).AllWellFormed) cells next values after :=
    h.imp_of_mem fun cell hcell {_ _ _} hread => wellFormed_of_gives (hnames cell hcell) hread
  exact hread.forall_mem id

end Grammar

/-! ### Names in a line -/

theorem Token.subset_of_mem_cellsBetween {tokens cell : List Token}
    (h : cell ∈ cellsBetween tokens) : cell ⊆ tokens := by
  induction tokens generalizing cell with
  | nil =>
    obtain rfl := List.mem_singleton.1 h
    exact List.nil_subset _
  | cons token rest ih =>
    unfold cellsBetween at h
    split at h
    · rcases List.mem_cons.1 h with rfl | h
      · exact List.nil_subset _
      · exact List.subset_cons_of_subset _ (ih h)
    · split at h
      · next hnil => simp_all
      · next piece pieces hpieces =>
        rcases List.mem_cons.1 h with rfl | h
        · have hpiece : piece ⊆ rest := ih (hpieces ▸ List.mem_cons_self)
          exact List.cons_subset_cons _ hpiece
        · exact List.subset_cons_of_subset _ (ih (hpieces ▸ List.mem_cons_of_mem _ h))

theorem Token.HasIdentifiers.cells {tokens : List Token} {cells : List (List Token)}
    (h : HasIdentifiers tokens) (hcells : cells? tokens = some cells) :
    ∀ cell ∈ cells, HasIdentifiers cell := by
  intro cell hcell
  unfold cells? at hcells
  split at hcells
  · next first second rest =>
    split at hcells
    · cases hcells
      apply h.subset
      refine List.subset_cons_of_subset _ ?_
      exact List.Subset.trans (Token.subset_of_mem_cellsBetween hcell) (List.dropLast_subset _)
    · cases hcells
  · cases hcells

namespace DeclarationLine

variable {line : Line} {next after : Nat} {name : String}

theorem isIdentifier_of_gives {keyword : Keyword} (hnames : Token.HasIdentifiers line.tokens)
    (h : (DeclarationLine.name line keyword).Gives next name after) : IsIdentifier name := by
  unfold DeclarationLine.name at h
  split at h
  · next first token htokens =>
    cases hname : token.name? with
    | none => simp [hname] at h
    | some word =>
      simp only [hname, Option.elim_some, gives_pure] at h
      obtain ⟨rfl, _⟩ := h
      exact hnames token (by simp [htokens]) word hname
  · simp at h

theorem isIdentifier_of_enumMember? {tokens : List Token} {value : Option Int}
    (hnames : Token.HasIdentifiers tokens) (h : enumMember? tokens = some (name, value)) :
    IsIdentifier name := by
  unfold enumMember? at h
  split at h
  · next token =>
    obtain ⟨word, hword, h⟩ := Option.map_eq_some_iff.1 h
    cases h
    exact hnames token (by simp) _ hword
  · next token sign number =>
    split at h
    · next word _ hword _ _ =>
      obtain ⟨whole, _, h⟩ := Option.map_eq_some_iff.1 h
      cases h
      exact hnames token (by simp) _ hword
    · cases h
  · cases h

end DeclarationLine

theorem TableLine.isIdentifier_of_gives_column {line : Line} {cell : List Token} {item : Column}
    {next after : Nat} (hnames : Token.HasIdentifiers cell)
    (h : (column line cell).Gives next item after) : IsIdentifier item.name := by
  unfold column at h
  split at h
  · next found hfound =>
    obtain ⟨rfl, _⟩ := gives_pure.1 h
    unfold column? at hfound
    split at hfound
    · next typeToken nameToken =>
      simp only [Option.bind_eq_bind, Option.bind_eq_some_iff] at hfound
      obtain ⟨type, _, name, hname, hfound⟩ := hfound
      split at hfound <;> cases hfound
      exact hnames nameToken (by simp) name hname
    · cases hfound
  · simp at h

/-! ### Receivers -/

namespace Receiver

def WellFormed : Receiver → Prop
  | document whole => ∀ item ∈ whole.declarations, (Node.ofDeclaration item).AllWellFormed
  | function decl => (Node.function decl).AllWellFormed
  | definitions block => ∀ item ∈ block.definitions, (Node.definition item).AllWellFormed
  | enumeration decl => (Node.enumeration decl).AllWellFormed
  | table decl => (Node.table decl).AllWellFormed
  | record decl => (Node.record decl).AllWellFormed
  | scenario decl => (Node.scenario decl).AllWellFormed
  | assignments block =>
    ∀ line ∈ block.assignments, line.isAssignment = true ∧ (Node.expression line).AllWellFormed
  | validationTable item => (Node.validationTable item).AllWellFormed
  | expectedErrors _ => True
  | body lines => (∀ line ∈ lines, line.standsAlone = true) ∧
      ∀ line ∈ lines, (Node.expression line).AllWellFormed
  | expression item => (Node.expression item).AllWellFormed

theorem wellFormed_ofDeclaration (declaration : Declaration) :
    (ofDeclaration declaration).WellFormed ↔ (Node.ofDeclaration declaration).AllWellFormed := by
  cases declaration <;> exact Iff.rfl

variable {receiver receiver' inner inner' : Receiver}

theorem wellFormed_body {whole : Expr} {lines : List Expr} (hbody : whole.body? = some lines)
    (h : (Node.expression whole).AllWellFormed) : (body lines).WellFormed := by
  obtain ⟨_, halone, hparts⟩ := (Node.allWellFormed_expression _).1 h
  refine ⟨halone lines hbody, fun line hline => hparts line ?_⟩
  cases whole <;> cases hbody <;> simp [Expr.children, hline]

theorem wellFormed_withBody {whole : Expr} {lines lines' : List Expr}
    (hbody : whole.body? = some lines) (h : (Node.expression whole).AllWellFormed)
    (hlines : (body lines').WellFormed) :
    (Node.expression (whole.withBody lines')).AllWellFormed := by
  obtain ⟨⟨hform, hoperands⟩, _, hparts⟩ := (Node.allWellFormed_expression _).1 h
  refine (Node.allWellFormed_expression _).2 ⟨⟨?_, ?_⟩, ?_, ?_⟩
  · cases whole <;> cases hbody <;> exact hform
  · cases whole <;> cases hbody <;> exact hoperands
  · intro new hnew
    rw [Expr.body?_withBody hbody] at hnew
    cases hnew
    exact hlines.1
  · cases whole <;> cases hbody <;>
      simp only [Expr.withBody, Expr.children, List.mem_append, List.mem_cons] at hparts ⊢ <;>
      grind [WellFormed]

/-- What stays well-formed inside a receiver leaves it well-formed. -/
theorem Replaces.wellFormed (h : receiver.Replaces inner inner' receiver')
    (hreceiver : receiver.WellFormed) (hinner : inner.WellFormed → inner'.WellFormed) :
    receiver'.WellFormed := by
  cases h with
  | declaration hslot _ =>
    rw [wellFormed_ofDeclaration, wellFormed_ofDeclaration] at hinner
    exact forall_mem_set hreceiver (hinner (hreceiver _ (List.mem_of_getElem? hslot)))
  | line hslot hhead =>
    have hmem := List.mem_of_getElem? hslot
    refine ⟨forall_mem_set hreceiver.1 ?_, forall_mem_set hreceiver.2 ?_⟩
    · exact (Expr.standsAlone_of_head hhead).trans (hreceiver.1 _ hmem)
    · exact hinner (hreceiver.2 _ hmem)
  | branchBody hslot =>
    exact wellFormed_withBody hslot hreceiver (hinner (wellFormed_body hslot hreceiver))
  | @alternative mark condition lines alternatives slot item item' hslot hhead =>
    obtain ⟨⟨hchain, hoperands⟩, halone, hparts⟩ := (Node.allWellFormed_expression _).1 hreceiver
    obtain ⟨hbefore, halternatives⟩ := List.forall_mem_append.1 hparts
    refine (Node.allWellFormed_expression _).2 ⟨⟨?_, hoperands⟩, halone,
      List.forall_mem_append.2 ⟨hbefore, ?_⟩⟩
    · exact hchain.set hslot (Expr.isElseIf_of_head hhead) (Expr.isOtherwise_of_head hhead)
    · exact forall_mem_set halternatives (hinner (halternatives _ (List.mem_of_getElem? hslot)))
  | @case mark subject cases slot item item' hslot hhead =>
    obtain ⟨⟨hbranches, hoperands⟩, _, hparts⟩ := (Node.allWellFormed_expression _).1 hreceiver
    obtain ⟨hsubject, hcases⟩ := List.forall_mem_cons.1 hparts
    have hmem := List.mem_of_getElem? hslot
    refine (Node.allWellFormed_expression _).2 ⟨⟨?_, hoperands⟩, by rintro _ ⟨⟩,
      List.forall_mem_cons.2 ⟨hsubject, ?_⟩⟩
    · exact forall_mem_set hbranches ((Expr.isCase_of_head hhead).trans (hbranches _ hmem))
    · exact forall_mem_set hcases (hinner (hcases _ hmem))
  | parameters hslot | results hslot | code hslot =>
    simp only [WellFormed, Node.allWellFormed_function, Node.allWellFormed_definitions,
      Node.allWellFormed_code, hslot, Option.mem_some_iff, forall_eq'] at hreceiver hinner ⊢
    tauto
  | testedFunction hslot | testedEnumeration hslot | testedTable hslot | givenParameters hslot
  | givenResults hslot | validationTable hslot | expectErrors hslot | expectComponentErrors hslot
  | expectExecutionErrors hslot =>
    simp only [WellFormed, Node.allWellFormed_scenario, Node.allWellFormed_assignments, hslot,
      Option.mem_some_iff, Option.some.injEq, TestedFunction.inline.injEq, forall_eq']
      at hreceiver hinner ⊢
    tauto

theorem wellFormed_add {lines : List Expr} {item : Expr} {received : Received (List Expr)}
    (h : CodeLine.add lines item = .ok received) (hlines : (body lines).WellFormed)
    (hitem : (Node.expression item).AllWellFormed) : (body received.receiver).WellFormed := by
  have hadds := CodeLine.adds_of_add h
  generalize received.receiver = lines' at hadds ⊢
  cases hadds with
  | line halone =>
    exact ⟨List.forall_mem_append.2 ⟨hlines.1, List.forall_mem_singleton.2 halone⟩,
      List.forall_mem_append.2 ⟨hlines.2, List.forall_mem_singleton.2 hitem⟩⟩
  | @alternative earlier mark condition inner alternatives hlines' hbranch hopen =>
    subst hlines'
    obtain ⟨halone, hlast⟩ := List.forall_mem_append.1 hlines.1
    obtain ⟨hearlier, hchain⟩ := List.forall_mem_append.1 hlines.2
    obtain ⟨⟨hform, hoperands⟩, hinner, hparts⟩ :=
      (Node.allWellFormed_expression _).1 (hchain _ List.mem_cons_self)
    refine ⟨List.forall_mem_append.2 ⟨halone, List.forall_mem_singleton.2 rfl⟩,
      List.forall_mem_append.2 ⟨hearlier, List.forall_mem_singleton.2 ?_⟩⟩
    refine (Node.allWellFormed_expression _).2 ⟨⟨hform.append hopen hbranch, hoperands⟩, hinner,
      fun part hpart => ?_⟩
    simp only [Expr.children, List.mem_append, List.mem_cons] at hpart hparts
    grind

variable {grammar : Grammar} {line : Line} {next after : Nat} {received : Received Receiver}

theorem wellFormed_definition {mark : Mark} {type : WrittenType} {name : String}
    {default : Option Expr}
    (h : (Node.expression (.declare mark type name default)).AllWellFormed)
    (reference : Reference) :
    (Node.definition ⟨mark.id, name, reference, type, default⟩).AllWellFormed := by
  obtain ⟨⟨hname, hoperands⟩, _, hparts⟩ := (Node.allWellFormed_expression _).1 h
  refine (Node.allWellFormed_definition _).2 ⟨hname, fun value hvalue => ?_⟩
  have hmem := Option.mem_toList.2 hvalue
  exact ⟨hoperands value hmem, hparts value hmem⟩

/-! A declaration that has been opened has nothing in it yet but its name. -/

section Opened

variable {name : String} (hname : IsIdentifier name) (reference : Reference)
include hname

theorem wellFormed_emptyFunction : (Node.function (.empty name reference)).AllWellFormed :=
  (Node.allWellFormed_function _).2 ⟨hname, nofun, nofun, nofun⟩

theorem wellFormed_emptyEnumeration : (Node.enumeration (.empty name reference)).AllWellFormed :=
  (Node.allWellFormed_enumeration _).2 ⟨hname, List.nodup_nil, List.forall_mem_nil _⟩

theorem wellFormed_emptyTable : (Node.table (.empty name reference)).AllWellFormed :=
  (Node.allWellFormed_table _).2 ⟨hname, List.forall_mem_nil _, nofun, List.forall_mem_nil _⟩

theorem wellFormed_emptyDeclaration {keyword : Keyword} {declaration : Declaration}
    (h : DeclarationLine.emptyDeclaration? keyword name reference = some declaration) :
    (Node.ofDeclaration declaration).AllWellFormed := by
  unfold DeclarationLine.emptyDeclaration? at h
  split at h <;> cases h
  · exact wellFormed_emptyFunction hname reference
  · exact wellFormed_emptyEnumeration hname reference
  · exact wellFormed_emptyTable hname reference
  · exact (Node.allWellFormed_record _).2 ⟨hname, List.forall_mem_nil _⟩
  · exact (Node.allWellFormed_scenario _).2 ⟨hname, nofun, nofun, nofun, nofun, nofun, nofun⟩

end Opened

theorem wellFormed_openBlock {decl : ScenarioDecl} (h : (scenario decl).WellFormed)
    (block : ScenarioBlock) (reference : Reference) :
    (scenario (decl.openBlock reference block)).WellFormed := by
  obtain ⟨hname, hfunction, henumeration, htable, hparameters, hresults, hvalidation⟩ :=
    (Node.allWellFormed_scenario _).1 h
  apply (Node.allWellFormed_scenario _).2
  cases block with
  | function =>
    refine ⟨hname, ?_, henumeration, htable, hparameters, hresults, hvalidation⟩
    rintro _ ⟨⟩
    exact wellFormed_emptyFunction hname reference
  | enumeration =>
    refine ⟨hname, hfunction, ?_, htable, hparameters, hresults, hvalidation⟩
    rintro _ ⟨⟩
    exact wellFormed_emptyEnumeration hname reference
  | table =>
    refine ⟨hname, hfunction, henumeration, ?_, hparameters, hresults, hvalidation⟩
    rintro _ ⟨⟩
    exact wellFormed_emptyTable hname reference
  | parameters =>
    refine ⟨hname, hfunction, henumeration, htable, ?_, hresults, hvalidation⟩
    rintro _ ⟨⟩
    exact (Node.allWellFormed_assignments _ _).2 (List.forall_mem_nil _)
  | results =>
    refine ⟨hname, hfunction, henumeration, htable, hparameters, ?_, hvalidation⟩
    rintro _ ⟨⟩
    exact (Node.allWellFormed_assignments _ _).2 (List.forall_mem_nil _)
  | validationTable =>
    refine ⟨hname, hfunction, henumeration, htable, hparameters, hresults, ?_⟩
    rintro _ ⟨⟩
    exact (Node.allWellFormed_validationTable _).2 ⟨List.forall_mem_nil _, List.forall_mem_nil _⟩
  | expectErrors | expectComponentErrors | expectExecutionErrors =>
    exact ⟨hname, hfunction, henumeration, htable, hparameters, hresults, hvalidation⟩

theorem rowsFit_append {α : Type} {columns : List α} {rows : List TableRow} {cells : TableRow}
    (h : Node.RowsFit (some columns) rows) (hlength : cells.values.length = columns.length) :
    Node.RowsFit (some columns) (rows ++ [cells]) :=
  List.forall_mem_append.2 ⟨h, List.forall_mem_singleton.2 ⟨columns, rfl, hlength⟩⟩

theorem rowsFit_of_none {α : Type} {rows : List TableRow} (columns : Option (List α))
    (h : Node.RowsFit (none : Option (List α)) rows) : Node.RowsFit columns rows := by
  intro cells hcells
  obtain ⟨_, hcolumns, _⟩ := h cells hcells
  cases hcolumns

theorem Accepts.wellFormed (h : receiver.Accepts grammar line next received after)
    (hnames : Token.HasIdentifiers line.tokens) (hreceiver : receiver.WellFormed) :
    received.receiver.WellFormed := by
  cases h with
  | skip | malformedInclusion | inclusion => exact hreceiver
  | declaration hname hsort =>
    refine List.forall_mem_append.2 ⟨hreceiver, List.forall_mem_singleton.2 ?_⟩
    exact wellFormed_emptyDeclaration (DeclarationLine.isIdentifier_of_gives hnames hname) _ hsort
  | @functionBlock decl block next hnew =>
    obtain ⟨hname, hparameters, hresults, hcode⟩ := (Node.allWellFormed_function _).1 hreceiver
    refine (Node.allWellFormed_function _).2 ?_
    cases block with
    | parameters => exact ⟨hname, by simp [FunctionDecl.openBlock], hresults, hcode⟩
    | results => exact ⟨hname, hparameters, by simp [FunctionDecl.openBlock], hcode⟩
    | code => exact ⟨hname, hparameters, hresults, by simp [FunctionDecl.openBlock]⟩
  | definition hread =>
    have hnew := wellFormed_definition (Grammar.wellFormed_of_gives hnames hread).2
    exact List.forall_mem_append.2 ⟨hreceiver, List.forall_mem_singleton.2 (hnew _)⟩
  | member hread =>
    have hnew := wellFormed_definition (Grammar.wellFormed_of_gives hnames hread).2
    obtain ⟨hname, hmembers⟩ := (Node.allWellFormed_record _).1 hreceiver
    exact (Node.allWellFormed_record _).2
      ⟨hname, List.forall_mem_append.2 ⟨hmembers, List.forall_mem_singleton.2 (hnew _)⟩⟩
  | @enumMember decl name value next hmember hnew =>
    obtain ⟨hdecl, hdistinct, hmembers⟩ := (Node.allWellFormed_enumeration _).1 hreceiver
    refine (Node.allWellFormed_enumeration _).2
      ⟨hdecl, ?_, List.forall_mem_append.2 ⟨hmembers, List.forall_mem_singleton.2 ?_⟩⟩
    · have hother : ∀ member ∈ decl.members, member.name ≠ name := by
        simpa [EnumDecl.hasMember] using hnew
      rw [List.map_append]
      exact List.nodup_append.2 ⟨hdistinct, List.nodup_singleton _, by grind⟩
    · exact DeclarationLine.isIdentifier_of_enumMember? hnames hmember
  | message => trivial
  | @tableHeader table cells columns next hcells hheader hcolumns =>
    obtain ⟨hname, hrows, _, hvalues⟩ := (Node.allWellFormed_table _).1 hreceiver
    rw [hheader] at hrows
    refine (Node.allWellFormed_table _).2 ⟨hname, rowsFit_of_none _ hrows, ?_, hvalues⟩
    have hidentifiers : InOrder (fun _ _ item _ => IsIdentifier item.name) cells next columns
        next := hcolumns.imp_of_mem fun cell hcell {_ _ _} hread =>
      TableLine.isIdentifier_of_gives_column (hnames.cells hcells cell hcell) hread
    rintro _ ⟨⟩
    exact hidentifiers.forall_mem id
  | @tableRow table header cells values next after hcells hheader hlength hvalues =>
    obtain ⟨hname, hrows, hcolumns, hrest⟩ := (Node.allWellFormed_table _).1 hreceiver
    rw [hheader] at hrows
    refine (Node.allWellFormed_table _).2 ⟨hname, ?_, hcolumns,
      List.forall_mem_append.2 ⟨hrest, List.forall_mem_singleton.2 ?_⟩⟩
    · rw [hheader]
      exact rowsFit_append hrows (hvalues.length_eq.symm.trans hlength)
    · exact (Node.allWellFormed_row _).2 (Grammar.wellFormed_cells (hnames.cells hcells) hvalues)
  | testedFunction hnew =>
    obtain ⟨hname, _, hrest⟩ := (Node.allWellFormed_scenario _).1 hreceiver
    exact (Node.allWellFormed_scenario _).2 ⟨hname, by rintro _ ⟨⟩, hrest⟩
  | expectedError =>
    have hblocks := (Node.allWellFormed_scenario _).1 hreceiver
    exact (Node.allWellFormed_scenario _).2 hblocks
  | @scenarioBlock decl block next hnew hfunction =>
    exact wellFormed_openBlock hreceiver block line.start
  | assignment hread =>
    have hnew := (Grammar.wellFormed_of_gives hnames hread).2
    exact List.forall_mem_append.2 ⟨hreceiver, List.forall_mem_singleton.2 ⟨rfl, hnew⟩⟩
  | @validationHeader table cells columns next hcells hheader hcolumns =>
    obtain ⟨hrows, hvalues⟩ := (Node.allWellFormed_validationTable _).1 hreceiver
    rw [hheader] at hrows
    exact (Node.allWellFormed_validationTable _).2 ⟨rowsFit_of_none _ hrows, hvalues⟩
  | @validationRow table header cells values next after hcells hheader hlength hvalues =>
    obtain ⟨hrows, hrest⟩ := (Node.allWellFormed_validationTable _).1 hreceiver
    rw [hheader] at hrows
    refine (Node.allWellFormed_validationTable _).2 ⟨?_,
      List.forall_mem_append.2 ⟨hrest, List.forall_mem_singleton.2 ?_⟩⟩
    · rw [hheader]
      exact rowsFit_append hrows (hvalues.length_eq.symm.trans hlength)
    · exact (Node.allWellFormed_row _).2 (Grammar.wellFormed_cells (hnames.cells hcells) hvalues)
  | code hread hadd =>
    exact wellFormed_add hadd hreceiver (Grammar.wellFormed_of_gives hnames hread).2
  | branch hbody hread hadd =>
    apply wellFormed_withBody hbody hreceiver
    exact wellFormed_add hadd (wellFormed_body hbody hreceiver)
      (Grammar.wellFormed_of_gives hnames hread).2
  | @case mark subject cases item received next after hread hadd =>
    obtain ⟨hbranch, hadded⟩ := CodeLine.added_of_addCase hadd
    obtain ⟨⟨hbranches, hoperands⟩, _, hparts⟩ := (Node.allWellFormed_expression _).1 hreceiver
    have hnew := (Grammar.wellFormed_of_gives hnames hread).2
    refine (Node.allWellFormed_expression _).2 ⟨⟨?_, hoperands⟩, by rintro _ ⟨⟩, ?_⟩
    · simp only [Expr.HasForm, hadded]
      exact List.forall_mem_append.2 ⟨hbranches, List.forall_mem_singleton.2 hbranch⟩
    · simp only [Expr.children, hadded]
      exact List.forall_mem_append.2 ⟨hparts, List.forall_mem_singleton.2 hnew⟩

/-- What has been read stays well-formed when a line is taken. -/
theorem Takes.wellFormed {path : SlotPath}
    (h : Takes grammar line path receiver next received after)
    (hnames : Token.HasIdentifiers line.tokens) (hreceiver : receiver.WellFormed) :
    received.receiver.WellFormed := by
  induction h with
  | here haccepted => exact haccepted.wellFormed hnames hreceiver
  | inside hslot htaken ih => exact (replaces_of_slot? hslot htaken.alike).wellFormed hreceiver ih

end Receiver

end DecisionLang
