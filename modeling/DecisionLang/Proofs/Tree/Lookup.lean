import DecisionLang.Tree.Document
import Mathlib.Data.List.Nodup

/-!
# Declarations by name

What is looked up by name and sort is a declaration of the document, with this name; where names
do not repeat, every declaration is found in this way. All that a look-up can depend on is the list
of declarations with the name, `Document.called`.
-/

namespace DecisionLang.Document

variable {document : Document} {name : String}

theorem mem_declarations_of_table? {decl : TableDecl} (h : document.table? name = some decl) :
    .table decl ∈ document.declarations ∧ decl.name = name := by
  obtain ⟨declaration, hmem, hfound⟩ := List.exists_of_findSome?_eq_some h
  cases declaration with
  | table other =>
    simp only [Option.ite_none_right_eq_some, Option.some.injEq] at hfound
    obtain ⟨hname, rfl⟩ := hfound
    exact ⟨hmem, hname⟩
  | _ => cases hfound

theorem mem_declarations_of_record? {decl : RecordDecl} (h : document.record? name = some decl) :
    .record decl ∈ document.declarations ∧ decl.name = name := by
  obtain ⟨declaration, hmem, hfound⟩ := List.exists_of_findSome?_eq_some h
  cases declaration with
  | record other =>
    simp only [Option.ite_none_right_eq_some, Option.some.injEq] at hfound
    obtain ⟨hname, rfl⟩ := hfound
    exact ⟨hmem, hname⟩
  | _ => cases hfound

theorem mem_declarations_of_function? {decl : FunctionDecl}
    (h : document.function? name = some decl) :
    .function decl ∈ document.declarations ∧ decl.name = name := by
  obtain ⟨declaration, hmem, hfound⟩ := List.exists_of_findSome?_eq_some h
  cases declaration with
  | function other =>
    simp only [Option.ite_none_right_eq_some, Option.some.injEq] at hfound
    obtain ⟨hname, rfl⟩ := hfound
    exact ⟨hmem, hname⟩
  | _ => cases hfound

theorem function?_of_nodup (hnames : document.names.Nodup) {decl : FunctionDecl}
    (h : .function decl ∈ document.declarations) : document.function? decl.name = some decl := by
  cases hfound : document.function? decl.name with
  | none => simpa using List.findSome?_eq_none_iff.1 hfound _ h
  | some other =>
    obtain ⟨hother, hname⟩ := mem_declarations_of_function? hfound
    cases List.inj_on_of_nodup_map hnames hother h hname
    rfl

theorem table?_of_nodup (hnames : document.names.Nodup) {decl : TableDecl}
    (h : .table decl ∈ document.declarations) : document.table? decl.name = some decl := by
  cases hfound : document.table? decl.name with
  | none => simpa using List.findSome?_eq_none_iff.1 hfound _ h
  | some other =>
    obtain ⟨hother, hname⟩ := mem_declarations_of_table? hfound
    cases List.inj_on_of_nodup_map hnames hother h hname
    rfl

theorem record?_of_nodup (hnames : document.names.Nodup) {decl : RecordDecl}
    (h : .record decl ∈ document.declarations) : document.record? decl.name = some decl := by
  cases hfound : document.record? decl.name with
  | none => simpa using List.findSome?_eq_none_iff.1 hfound _ h
  | some other =>
    obtain ⟨hother, hname⟩ := mem_declarations_of_record? hfound
    cases List.inj_on_of_nodup_map hnames hother h hname
    rfl

/-! ### Declarations of one name -/

def called (document : Document) (name : String) : List Declaration :=
  document.declarations.filter fun item => item.name == name

theorem mem_called {item : Declaration} :
    item ∈ document.called name ↔ item ∈ document.declarations ∧ item.name = name := by
  simp [called]

theorem find?_eq_head? (document : Document) (name : String) :
    document.find? name = (document.called name).head? :=
  (List.head?_filter ..).symm

theorem called_of_nodup (hnames : document.names.Nodup) (name : String) :
    document.called name = (document.find? name).toList := by
  have hnodup : ((document.called name).map Declaration.name).Nodup :=
    hnames.sublist ((List.filter_sublist (l := document.declarations)).map _)
  rw [find?_eq_head?]
  match hcalled : document.called name with
  | [] => rfl
  | [item] => rfl
  | first :: second :: rest =>
    have hfirst := (mem_called.1 (hcalled ▸ List.mem_cons_self)).2
    have hsecond := (mem_called.1 (hcalled ▸ List.mem_cons_of_mem first List.mem_cons_self)).2
    simp [hcalled, hfirst, hsecond] at hnodup

/-- What is looked up by name is the same if the declarations of the name are. -/
theorem findSome?_congr {α : Type} {pick : Declaration → Option α} {other : Document}
    (hpick : ∀ item found, pick item = some found → item.name = name)
    (h : other.called name = document.called name) :
    other.declarations.findSome? pick = document.declarations.findSome? pick := by
  have hfilter (items : List Declaration) :
      (items.filter fun item => item.name == name).findSome? pick = items.findSome? pick := by
    induction items with
    | nil => rfl
    | cons item items ih =>
      rw [List.filter_cons, List.findSome?_cons]
      split
      · rw [List.findSome?_cons, ih]
      · next hname =>
        have hnone : pick item = none := Option.eq_none_iff_forall_not_mem.2 fun found hfound =>
          hname (beq_iff_eq.2 (hpick item found hfound))
        rw [hnone, ih]
  rw [← hfilter, ← hfilter document.declarations]
  exact congrArg (List.findSome? pick) h

section Congr

variable {other : Document} (h : other.called name = document.called name)
include h

theorem find?_congr : other.find? name = document.find? name := by
  rw [find?_eq_head?, find?_eq_head?, h]

theorem function?_congr : other.function? name = document.function? name := by
  refine findSome?_congr (fun item found hfound => ?_) h
  cases item with
  | function decl =>
    simp only [Option.ite_none_right_eq_some] at hfound
    exact hfound.1
  | _ => cases hfound

theorem enumeration?_congr : other.enumeration? name = document.enumeration? name := by
  refine findSome?_congr (fun item found hfound => ?_) h
  cases item with
  | enumeration decl =>
    simp only [Option.ite_none_right_eq_some] at hfound
    exact hfound.1
  | _ => cases hfound

theorem table?_congr : other.table? name = document.table? name := by
  refine findSome?_congr (fun item found hfound => ?_) h
  cases item with
  | table decl =>
    simp only [Option.ite_none_right_eq_some] at hfound
    exact hfound.1
  | _ => cases hfound

theorem record?_congr : other.record? name = document.record? name := by
  refine findSome?_congr (fun item found hfound => ?_) h
  cases item with
  | record decl =>
    simp only [Option.ite_none_right_eq_some] at hfound
    exact hfound.1
  | _ => cases hfound

end Congr

end DecisionLang.Document
