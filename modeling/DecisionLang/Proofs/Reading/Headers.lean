import DecisionLang.Proofs.Reading.Run
import DecisionLang.Proofs.Reading.Slots
import Mathlib.Data.List.Nodup

/-!
# Columns of tables that have been read

A header with a repeated column is taken, with a remark for each repetition, so columns of a table
have different names unless an error has been logged. Only a header changes the columns of a table;
every other line keeps them. Main statement: `Progress.Reads.distinctColumns`.
-/

namespace DecisionLang

/-- No two columns of a table have the same name. -/
def TableDecl.DistinctColumns (decl : TableDecl) : Prop := (decl.columns.map Column.name).Nodup

def Declaration.tables : Declaration → List TableDecl
  | .table decl => [decl]
  | .scenario decl => decl.table.toList
  | _ => []

def Receiver.tables : Receiver → List TableDecl
  | document whole => whole.declarations.flatMap Declaration.tables
  | table decl => [decl]
  | scenario decl => decl.table.toList
  | _ => []

def Receiver.DistinctColumns (receiver : Receiver) : Prop :=
  ∀ decl ∈ receiver.tables, decl.DistinctColumns

theorem TableDecl.distinctColumns_empty (name : String) (reference : Reference) :
    (TableDecl.empty name reference).DistinctColumns := List.nodup_nil

theorem TableDecl.DistinctColumns.column?_eq {decl : TableDecl} (h : decl.DistinctColumns)
    {column : Column} (hcolumn : column ∈ decl.columns) :
    decl.column? column.name = some column := by
  unfold column?
  cases hfound : decl.columns.find? (fun other => other.name == column.name) with
  | none => simpa using List.find?_eq_none.1 hfound column hcolumn
  | some other =>
    have hname : other.name = column.name := by simpa using List.find?_some hfound
    rw [List.inj_on_of_nodup_map h (List.mem_of_find?_eq_some hfound) hcolumn hname]

namespace TableLine

theorem nodup_of_repeatedColumns {seen : List String} {columns : List Column}
    (h : repeatedColumns seen columns = []) :
    (columns.map Column.name).Nodup ∧ ∀ column ∈ columns, column.name ∉ seen := by
  induction columns generalizing seen with
  | nil => exact ⟨List.nodup_nil, List.forall_mem_nil _⟩
  | cons column columns ih =>
    unfold repeatedColumns at h
    by_cases hseen : seen.contains column.name = true
    · rw [if_pos hseen] at h
      cases h
    · rw [if_neg hseen] at h
      obtain ⟨hnodup, hlater⟩ := ih h
      constructor
      · rw [List.map_cons, List.nodup_cons, List.mem_map]
        refine ⟨?_, hnodup⟩
        rintro ⟨other, hother, hname⟩
        exact hlater other hother (hname ▸ List.mem_cons_self)
      · rintro other (_ | ⟨_, hother⟩)
        · simpa using hseen
        · exact fun hmem => hlater other hother (List.mem_cons_of_mem _ hmem)

end TableLine

namespace Receiver

variable {grammar : Grammar} {line : Line} {receiver inner inner' receiver' : Receiver}
  {path : SlotPath} {next after : Nat} {received : Received Receiver}

theorem tables_ofDeclaration (item : Declaration) : (ofDeclaration item).tables = item.tables := by
  cases item <;> rfl

theorem distinctColumns_document {document : Document} :
    (Receiver.document document).DistinctColumns ↔
      ∀ item ∈ document.declarations, (ofDeclaration item).DistinctColumns := by
  simp only [DistinctColumns, tables_ofDeclaration]
  exact List.forall_mem_flatMap

theorem distinctColumns_of_tables_eq_nil (h : receiver.tables = []) : receiver.DistinctColumns := by
  unfold DistinctColumns
  rw [h]
  exact List.forall_mem_nil _

theorem Replaces.tables_subset (h : receiver.Replaces inner inner' receiver') :
    inner.tables ⊆ receiver.tables := by
  cases h with
  | @declaration _ slot item _ hslot =>
    rw [tables_ofDeclaration]
    exact fun decl hdecl => List.mem_flatMap.2 ⟨item, List.mem_of_getElem? hslot, hdecl⟩
  | testedTable hslot =>
    intro decl hdecl
    obtain rfl := List.mem_singleton.1 hdecl
    exact Option.mem_toList.2 hslot
  | _ => exact List.nil_subset _

theorem Replaces.distinctColumns (h : receiver.Replaces inner inner' receiver')
    (hreceiver : receiver.DistinctColumns) (hinner : inner'.DistinctColumns) :
    receiver'.DistinctColumns := by
  cases h with
  | declaration =>
    rw [distinctColumns_document] at hreceiver ⊢
    intro item hitem
    rcases List.mem_or_eq_of_mem_set hitem with hitem | rfl
    · exact hreceiver item hitem
    · exact hinner
  | testedTable => exact hinner
  | testedFunction | testedEnumeration | givenParameters | givenResults | validationTable
  | expectErrors | expectComponentErrors | expectExecutionErrors => exact hreceiver
  | _ => exact distinctColumns_of_tables_eq_nil rfl

theorem distinctColumns_emptyDeclaration {keyword : Keyword} {name : String}
    {reference : Reference} {item : Declaration}
    (h : DeclarationLine.emptyDeclaration? keyword name reference = some item) :
    (ofDeclaration item).DistinctColumns := by
  cases keyword <;> cases h
  case table => exact List.forall_mem_singleton.2 (TableDecl.distinctColumns_empty _ _)
  all_goals exact distinctColumns_of_tables_eq_nil rfl

/-- A line that is taken without a remark leaves the columns of all tables distinct. -/
theorem Accepts.distinctColumns (h : receiver.Accepts grammar line next received after)
    (hreceiver : receiver.DistinctColumns) (hremarks : received.remarks = []) :
    received.receiver.DistinctColumns := by
  cases h with
  | skip | malformedInclusion | inclusion => exact hreceiver
  | declaration _ hsort =>
    rw [distinctColumns_document] at hreceiver
    apply distinctColumns_document.2
    exact List.forall_mem_append.2
      ⟨hreceiver, List.forall_mem_singleton.2 (distinctColumns_emptyDeclaration hsort)⟩
  | tableHeader =>
    exact List.forall_mem_singleton.2 (TableLine.nodup_of_repeatedColumns hremarks).1
  | @tableRow decl =>
    have hdecl : decl.DistinctColumns := hreceiver decl (List.mem_singleton_self decl)
    exact List.forall_mem_singleton.2 hdecl
  | testedFunction | expectedError => exact hreceiver
  | @scenarioBlock decl block =>
    cases block with
    | table => exact List.forall_mem_singleton.2 (TableDecl.distinctColumns_empty _ _)
    | _ => exact hreceiver
  | _ => exact distinctColumns_of_tables_eq_nil rfl

theorem Takes.distinctColumns (h : Takes grammar line path receiver next received after)
    (hreceiver : receiver.DistinctColumns) (hremarks : received.remarks = []) :
    received.receiver.DistinctColumns := by
  induction h with
  | here haccepted => exact haccepted.distinctColumns hreceiver hremarks
  | inside hslot htaken ih =>
    have hreplaces := replaces_of_slot? hslot htaken.alike
    have hinner := ih (fun decl hdecl => hreceiver decl (hreplaces.tables_subset hdecl)) hremarks
    exact hreplaces.distinctColumns hreceiver hinner

end Receiver

namespace Progress

variable {grammar : Grammar} {progress progress' : Progress}

/-- The columns of all tables are distinct unless an error has been logged. -/
def DistinctColumns (progress : Progress) : Prop :=
  (Receiver.document progress.document).DistinctColumns ∨ progress.log.hasErrors = true

theorem Step.distinctColumns (h : Step grammar progress progress')
    (hdistinct : progress.DistinctColumns) : progress'.DistinctColumns := by
  rcases hdistinct with hdistinct | herrors
  · cases h with
    | idle hdeclarations =>
      left
      rw [Receiver.distinctColumns_document] at hdistinct ⊢
      rwa [hdeclarations]
    | @take _ _ _ _ _ received _ htaken hdocument _ hremarks =>
      by_cases hnone : received.remarks = []
      · left
        rw [← hdocument]
        exact htaken.distinctColumns hdistinct hnone
      · exact .inr (hremarks hnone)
  · exact .inr (h.continues.hasErrors herrors)

theorem Reads.distinctColumns (h : Reads grammar {} progress) : progress.DistinctColumns := by
  induction h with
  | refl => exact .inl (Receiver.distinctColumns_of_tables_eq_nil rfl)
  | tail _ hstep ih => exact hstep.distinctColumns ih

end Progress

end DecisionLang
