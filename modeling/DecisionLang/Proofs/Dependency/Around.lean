import DecisionLang.Proofs.Dependency.FirstCycle
import DecisionLang.Proofs.Dependency.Ordering

/-!
# What a declaration needs

The edges of a graph can be followed to an end, since dependencies have smaller ranks. A
declaration is listed with all that its edges reach and comes last itself. Where references have
no cycle, the edges of first declarations are their references, and references lead to first
declarations, so what the edges reach is what the references reach.

Main statements: `mem_flatten_iff` for any graph with a rank and `around?_leadsUpTo` for the graph
of a document.
-/

namespace DecisionLang.DependencyGraph

/-- A list of all that a declaration needs: each one once, after its own dependencies, and the
declaration itself at the end. -/
structure LeadsUpTo (graph : DependencyGraph) (order : List Nat) (last : Nat) : Prop where
  mem_iff : ∀ index, index ∈ order ↔ Relation.ReflTransGen graph.Depends last index
  nodup : order.Nodup
  sublist : ∀ index ∈ order, ∀ other, graph.Depends index other → [other, index].Sublist order
  getLast? : order.getLast? = some last

variable {graph : DependencyGraph} {rank : Nat → Nat} {roots emitted : List Nat}
  {index other root : Nat}

theorem IsRank.not_transGen (h : graph.IsRank rank) (index : Nat) :
    ¬ Relation.TransGen graph.Depends index index := by
  intro hback
  obtain ⟨other, hdepends, hrest⟩ := Relation.TransGen.head'_iff.1 hback
  exact Nat.lt_irrefl _ ((h.le hrest).trans_lt (h.lt hdepends))

/-- What a listed declaration reaches is listed. -/
theorem DependenciesFirst.mem_of_reflTransGen (h : graph.DependenciesFirst emitted)
    (hindex : index ∈ emitted) (hreach : Relation.ReflTransGen graph.Depends index other) :
    other ∈ emitted := by
  induction hreach with
  | refl => exact hindex
  | tail _ hdepends ih => exact (h.sublist ih hdepends).mem List.mem_cons_self

/-- The list of some declarations holds what they reach, and nothing else. -/
theorem mem_flatten_iff (hrank : graph.IsRank rank) (hroots : ∀ root ∈ roots, root < graph.size) :
    index ∈ graph.flatten roots ↔
      ∃ root ∈ roots, Relation.ReflTransGen graph.Depends root index := by
  have h := emission_flatten hrank hroots
  constructor
  · intro hindex
    exact (h.only index hindex).resolve_left List.not_mem_nil
  · rintro ⟨root, hroot, hreach⟩
    exact h.ordered.mem_of_reflTransGen (h.covers hroot) hreach

theorem getLast?_flatten_singleton (hroot : root < graph.size) :
    (graph.flatten [root]).getLast? = some root := by
  have hemit : graph.flatten [root] = graph.emit [] root [] := rfl
  rw [hemit, emit, dif_pos ⟨List.mem_range.2 hroot, List.not_mem_nil⟩]
  exact List.getLast?_concat

theorem leadsUpTo_flatten_singleton (hrank : graph.IsRank rank) (hroot : root < graph.size) :
    graph.LeadsUpTo (graph.flatten [root]) root := by
  have hroots : ∀ other ∈ [root], other < graph.size := by simpa using hroot
  have h := emission_flatten hrank hroots
  constructor
  case mem_iff =>
    intro index
    rw [mem_flatten_iff hrank hroots]
    simp
  case nodup => exact h.ordered.nodup
  case sublist => exact fun _ hindex _ hdepends => h.ordered.sublist hindex hdepends
  case getLast? => exact getLast?_flatten_singleton hroot

/-! ### Documents -/

variable {document : Document}

theorem indexOf?_ofDocument (name : String) :
    (ofDocument document).indexOf? name = document.indexOf? name := by
  change (document.declarations.map _).findIdx? _ = document.declarations.findIdx? _
  rw [List.findIdx?_map]
  rfl

theorem exists_indexOf? {name : String} (h : name ∈ document.names) :
    ∃ first, document.indexOf? name = some first := by
  obtain ⟨declaration, hmem, hname⟩ := List.mem_map.1 h
  rw [← Option.isSome_iff_exists, Document.indexOf?, List.findIdx?_isSome, List.any_eq_true]
  exact ⟨declaration, hmem, beq_iff_eq.2 hname⟩

theorem isCircular_eq_false_iff : (ofDocument document).isCircular = false ↔
    ∀ index, ¬ Relation.TransGen document.Refers index index := by
  rw [Bool.eq_false_iff, Ne, isCircular_iff_exists_transGen, not_exists]

/-- Only first declarations have dependencies, and they are references. -/
theorem refers_of_depends (h : (ofDocument document).Depends index other) :
    document.IsFirst index ∧ document.Refers index other := by
  obtain ⟨finished, hfinished⟩ := exists_finished document
  obtain ⟨hsublist, hrefers⟩ := hfinished.edges _ (depends_iff.1 h)
  have hmem : index ∈ finished := hsublist.subset (List.mem_cons_of_mem _ List.mem_cons_self)
  exact ⟨(hfinished.first index).1 hmem, hrefers⟩

/-- Where references have no cycle, all those of first declarations are kept. -/
theorem depends_iff_refers (hend : ∀ index, ¬ Relation.TransGen document.Refers index index) :
    (ofDocument document).Depends index other ↔
      document.IsFirst index ∧ document.Refers index other := by
  obtain ⟨finished, hfinished⟩ := exists_finished document
  have hcycles : (ofDocument document).cycles = [] := by
    by_contra hne
    have hcircular := isCircular_iff_cycles_ne_nil.2 hne
    rw [isCircular_eq_false_iff.2 hend] at hcircular
    cases hcircular
  constructor
  · exact refers_of_depends
  · rintro ⟨hfirst, hrefers⟩
    exact depends_iff.2 (hfinished.followed hcycles index other hfirst hrefers)

theorem reflTransGen_depends_iff (hend : ∀ index, ¬ Relation.TransGen document.Refers index index)
    (hfirst : document.IsFirst index) :
    Relation.ReflTransGen (ofDocument document).Depends index other ↔
      Relation.ReflTransGen document.Refers index other := by
  constructor
  · apply Relation.ReflTransGen.mono
    exact fun _ _ hdepends => (refers_of_depends hdepends).2
  · intro hreach
    induction hreach using Relation.ReflTransGen.head_induction_on with
    | refl => exact .refl
    | head hrefers _ ih =>
      have hnext := Document.isFirst_of_mem_references (Document.mem_references.2 hrefers)
      exact .head ((depends_iff_refers hend).2 ⟨hfirst, hrefers⟩) (ih hnext)

/-- Dependencies never lead back, and a declared name comes with all that its first declaration
needs, which is all that it reaches by references if those have no cycle. -/
theorem around?_leadsUpTo (document : Document) :
    (∀ index, ¬ Relation.TransGen (ofDocument document).Depends index index) ∧
      ∀ name ∈ document.names, ∃ first order,
        document.indexOf? name = some first ∧
        (ofDocument document).around? name = some order ∧
        (ofDocument document).LeadsUpTo order first ∧
        ((∀ index, ¬ Relation.TransGen document.Refers index index) →
          ∀ index, index ∈ order ↔ Relation.ReflTransGen document.Refers first index) := by
  obtain ⟨rank, hrank⟩ := exists_isRank_ofDocument document
  refine ⟨hrank.not_transGen, fun name hname => ?_⟩
  obtain ⟨first, hindex⟩ := exists_indexOf? hname
  have hsize : first < (ofDocument document).size := by
    simpa [size, ofDocument] using Document.indexOf?_lt hindex
  have hlists := leadsUpTo_flatten_singleton hrank hsize
  refine ⟨first, _, hindex, ?_, hlists, fun hend index => ?_⟩
  · rw [around?, indexOf?_ofDocument, hindex]
    rfl
  · rw [hlists.mem_iff, reflTransGen_depends_iff hend (Document.isFirst_of_indexOf? hindex)]

end DependencyGraph

/-- `Outer` is declared twice, and only its first declaration needs `Inner`. -/
def Document.sharedNeeds : Document where
  declarations := [.calling "Outer" ["Inner", "Last"], .calling "Last" [], .calling "Inner" ["Last"],
    .calling "Outer" ["Last"]]

namespace DependencyGraph

open Document

theorem around?_leadsUpTo_sharedNeeds :
    (∀ index, ¬ Relation.TransGen (ofDocument sharedNeeds).Depends index index) ∧
      "Outer" ∈ sharedNeeds.names ∧
      (∀ index, ¬ Relation.TransGen sharedNeeds.Refers index index) ∧
      ∃ first order, sharedNeeds.indexOf? "Outer" = some first ∧
        (ofDocument sharedNeeds).around? "Outer" = some order ∧
        (ofDocument sharedNeeds).LeadsUpTo order first ∧
        ∀ index, index ∈ order ↔ Relation.ReflTransGen sharedNeeds.Refers first index := by
  have hend : ∀ index, ¬ Relation.TransGen sharedNeeds.Refers index index :=
    isCircular_eq_false_iff.1 (by decide +kernel)
  have hname : "Outer" ∈ sharedNeeds.names := by decide
  obtain ⟨hnone, hneeds⟩ := around?_leadsUpTo sharedNeeds
  obtain ⟨first, order, hfirst, horder, hlists, hall⟩ := hneeds "Outer" hname
  exact ⟨hnone, hname, hend, first, order, hfirst, horder, hlists, hall hend⟩

example : (ofDocument sharedNeeds).around? "Outer" = some [1, 2, 0] := by decide +kernel

end DependencyGraph

end DecisionLang
