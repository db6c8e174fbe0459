import DecisionLang.Dependency.Order
import DecisionLang.Proofs.Dependency.Cycles

/-!
# Dependencies come first

The edges of a graph never lead back, since each one goes to a declaration that was finished
earlier. With such a rank a declaration is never met on its own way, so `DependencyGraph.emit`
appends it after all its dependencies. Main statements: `emission_flatten` for any graph with a
rank and `exists_isRank_ofDocument` for the graph of a document.
-/

namespace DecisionLang.DependencyGraph

def Depends (graph : DependencyGraph) (index other : Nat) : Prop :=
  other ∈ graph.dependencies index

/-- Dependencies have smaller ranks. -/
structure IsRank (graph : DependencyGraph) (rank : Nat → Nat) : Prop where
  lt : ∀ {index other}, graph.Depends index other → rank other < rank index
  inside : ∀ {index other}, graph.Depends index other → other < graph.size

/-- Every declaration is listed once and after all its dependencies. -/
inductive DependenciesFirst (graph : DependencyGraph) : List Nat → Prop
  | nil : DependenciesFirst graph []
  | concat {emitted : List Nat} {index : Nat} (h : DependenciesFirst graph emitted)
      (hnew : index ∉ emitted) (hdependencies : ∀ other, graph.Depends index other →
        other ∈ emitted) :
      DependenciesFirst graph (emitted ++ [index])

/-- What is listed after some declarations were emitted with what they need. -/
structure Emission (graph : DependencyGraph) (emitted roots after : List Nat) : Prop where
  ordered : graph.DependenciesFirst after
  keeps : emitted ⊆ after
  covers : roots ⊆ after
  only : ∀ index ∈ after, index ∈ emitted ∨
    ∃ root ∈ roots, Relation.ReflTransGen graph.Depends root index

variable {graph : DependencyGraph} {rank : Nat → Nat}

theorem depends_iff {index other : Nat} :
    graph.Depends index other ↔ (index, other) ∈ graph.edges := by
  unfold Depends dependencies
  simp

theorem IsRank.le (h : graph.IsRank rank) {index other : Nat}
    (hreach : Relation.ReflTransGen graph.Depends index other) : rank other ≤ rank index := by
  induction hreach with
  | refl => exact Nat.le_refl _
  | tail _ hdepends ih => exact (h.lt hdepends).le.trans ih

namespace DependenciesFirst

theorem nodup {emitted : List Nat} (h : graph.DependenciesFirst emitted) : emitted.Nodup := by
  induction h with
  | nil => exact List.nodup_nil
  | concat _ hnew _ ih => exact List.nodup_append.2 ⟨ih, List.nodup_singleton _, by grind⟩

theorem sublist {emitted : List Nat} (h : graph.DependenciesFirst emitted) {index other : Nat}
    (hindex : index ∈ emitted) (hdepends : graph.Depends index other) :
    [other, index].Sublist emitted := by
  induction h with
  | nil => cases hindex
  | @concat emitted last _ _ hdependencies ih =>
    rcases List.mem_append.1 hindex with hindex | hindex
    · exact (ih hindex).trans (List.sublist_append_left _ _)
    · rw [List.mem_singleton] at hindex
      subst hindex
      exact List.Sublist.append (List.singleton_sublist.2 (hdependencies other hdepends))
        (List.Sublist.refl [index])

end DependenciesFirst

namespace Emission

theorem already {emitted : List Nat} (h : graph.DependenciesFirst emitted) {root : Nat}
    (hroot : root ∈ emitted) : graph.Emission emitted [root] emitted :=
  ⟨h, fun _ => id, by simpa using hroot, fun _ => .inl⟩

theorem foldl {step : List Nat → Nat → List Nat} {roots : List Nat}
    (hstep : ∀ root ∈ roots, ∀ emitted, graph.DependenciesFirst emitted →
      graph.Emission emitted [root] (step emitted root))
    {emitted : List Nat} (h : graph.DependenciesFirst emitted) :
    graph.Emission emitted roots (roots.foldl step emitted) := by
  induction roots generalizing emitted with
  | nil => exact ⟨h, fun _ => id, List.nil_subset _, fun _ => .inl⟩
  | cons root roots ih =>
    have hhead := hstep root List.mem_cons_self emitted h
    have htail := ih (fun other hother => hstep other (List.mem_cons_of_mem _ hother)) hhead.ordered
    constructor
    case ordered => exact htail.ordered
    case keeps => exact List.Subset.trans hhead.keeps htail.keeps
    case covers =>
      exact List.cons_subset.2 ⟨htail.keeps (hhead.covers List.mem_cons_self), htail.covers⟩
    case only =>
      intro index hindex
      rcases htail.only index hindex with hindex | ⟨other, hother, hreach⟩
      · rcases hhead.only index hindex with hindex | ⟨other, hother, hreach⟩
        · exact .inl hindex
        · exact .inr ⟨other, List.mem_cons.2 (.inl (List.mem_singleton.1 hother)), hreach⟩
      · exact .inr ⟨other, List.mem_cons_of_mem _ hother, hreach⟩

theorem concat {emitted after : List Nat} {index : Nat} (hrank : graph.IsRank rank)
    (h : graph.Emission emitted (graph.dependencies index) after) (hnew : index ∉ emitted) :
    graph.Emission emitted [index] (after ++ [index]) := by
  have hreach {other last : Nat} (hother : other ∈ graph.dependencies index)
      (hlast : Relation.ReflTransGen graph.Depends other last) :
      Relation.TransGen graph.Depends index last := .head' hother hlast
  have hnew' : index ∉ after := by
    intro hindex
    rcases h.only index hindex with hindex | ⟨other, hother, hlast⟩
    · exact hnew hindex
    · exact Nat.lt_irrefl _ ((hrank.le hlast).trans_lt (hrank.lt hother))
  constructor
  case ordered => exact .concat h.ordered hnew' fun other hother => h.covers hother
  case keeps => exact List.Subset.trans h.keeps (List.subset_append_left _ _)
  case covers => simp
  case only =>
    intro last hlast
    rcases List.mem_append.1 hlast with hlast | hlast
    · apply (h.only last hlast).imp_right
      rintro ⟨other, hother, hlast⟩
      exact ⟨index, List.mem_singleton_self _, (hreach hother hlast).to_reflTransGen⟩
    · exact .inr ⟨index, List.mem_singleton_self _, List.mem_singleton.1 hlast ▸ .refl⟩

end Emission

/-- A declaration is emitted after its dependencies. What is on the way has a larger rank, so it
never keeps a dependency out. -/
theorem emission_emit (hrank : graph.IsRank rank) {way emitted : List Nat} {index : Nat}
    (hlt : index < graph.size) (hway : ∀ other ∈ way, rank index < rank other)
    (hemitted : graph.DependenciesFirst emitted) (hnew : index ∉ emitted) :
    graph.Emission emitted [index] (graph.emit way index emitted) := by
  induction hvalue : rank index using Nat.strongRecOn generalizing way index emitted with
  | ind value ih =>
    subst hvalue
    have hout : index ∉ way := fun hmem => Nat.lt_irrefl _ (hway index hmem)
    rw [emit, dif_pos ⟨List.mem_range.2 hlt, hout⟩]
    refine Emission.concat hrank (Emission.foldl ?_ hemitted) hnew
    intro other hother emitted hemitted
    by_cases hmem : other ∈ emitted
    · rw [if_pos (List.contains_iff_mem.2 hmem)]
      exact .already hemitted hmem
    · rw [if_neg (mt List.contains_iff_mem.1 hmem)]
      have hless := hrank.lt hother
      refine ih _ hless (hrank.inside hother) ?_ hemitted hmem rfl
      intro above habove
      rcases List.mem_cons.1 habove with rfl | habove
      · exact hless
      · exact hless.trans (hway above habove)

/-- Declarations are listed with all they depend on, dependencies first. -/
theorem emission_flatten (hrank : graph.IsRank rank) {roots : List Nat}
    (hroots : ∀ root ∈ roots, root < graph.size) :
    graph.Emission [] roots (graph.flatten roots) := by
  refine Emission.foldl ?_ .nil
  intro root hroot emitted hemitted
  by_cases hmem : root ∈ emitted
  · rw [if_pos (List.contains_iff_mem.2 hmem)]
    exact .already hemitted hmem
  · rw [if_neg (mt List.contains_iff_mem.1 hmem)]
    exact emission_emit hrank (hroots root hroot) (by simp) hemitted hmem

/-- Declarations rank by when the search finished them. -/
theorem exists_isRank_ofDocument (document : Document) :
    ∃ rank, (ofDocument document).IsRank rank := by
  obtain ⟨finished, h⟩ := exists_finished document
  refine ⟨finished.idxOf, ?_, ?_⟩
  · intro index other hdepends
    exact idxOf_lt_of_sublist h.nodup (h.edges _ (depends_iff.1 hdepends)).1
  · intro index other hdepends
    have hrefers := (h.edges _ (depends_iff.1 hdepends)).2
    have hlt := Document.lt_of_mem_references (Document.mem_references.2 hrefers)
    simpa [size, ofDocument] using hlt

/-- Without cycles, the order has every declaration once, and first declarations after what they
refer to. -/
theorem sorted?_ofDocument {document : Document}
    (hcircular : (ofDocument document).isCircular = false) :
    ∃ order, (ofDocument document).sorted? = some order ∧
      order.Perm (List.range document.declarations.length) ∧
      ∀ index other, document.IsFirst index → document.Refers index other →
        [other, index].Sublist order := by
  obtain ⟨rank, hrank⟩ := exists_isRank_ofDocument document
  obtain ⟨finished, hfinished⟩ := exists_finished document
  have hcycles : (ofDocument document).cycles = [] := by
    by_contra hne
    rw [isCircular_iff_cycles_ne_nil.2 hne] at hcircular
    cases hcircular
  have hindices : (ofDocument document).indices = List.range document.declarations.length := by
    simp [indices, size, ofDocument]
  have h : (ofDocument document).Emission [] (ofDocument document).indices _ :=
    emission_flatten hrank fun _ => List.mem_range.1
  refine ⟨_, if_neg (Bool.eq_false_iff.1 hcircular), ?_, ?_⟩
  · rw [← hindices]
    apply (List.perm_ext_iff_of_nodup h.ordered.nodup List.nodup_range).2
    intro index
    refine ⟨fun hindex => ?_, fun hindex => h.covers hindex⟩
    obtain hnil | ⟨root, hroot, hreach⟩ := h.only index hindex
    · cases hnil
    · rcases hreach.cases_tail with rfl | ⟨_, _, hdepends⟩
      · exact hroot
      · exact List.mem_range.2 (hrank.inside hdepends)
  · intro index other hfirst hrefers
    have hindex := h.covers (hindices ▸ List.mem_range.2 hfirst.1)
    exact h.ordered.sublist hindex
      (depends_iff.2 (hfinished.followed hcycles index other hfirst hrefers))

end DecisionLang.DependencyGraph
