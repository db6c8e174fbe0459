import DecisionLang.Proofs.Dependency.Stage
import Mathlib.Data.List.Chain
import Mathlib.Logic.Relation

/-!
# Cycles of references

What the search records as a cycle is one: the part of the way from the declaration that is met
again to the end of the way. If it records none, the order in which declarations are finished has
every dependency before what depends on it, so there is no cycle to record.

Main statements: `exists_isReferenceCycle_of_mem_cycles`, `isCircular_iff_exists_transGen`, and both
together in `isCircular_exact_and_cycles_genuine`.
-/

namespace DecisionLang

namespace Document

/-- A chain of references between at least two declarations that leads back to the first one. -/
structure IsReferenceCycle (document : Document) (cycle : List Nat) : Prop where
  two_le : 2 ≤ cycle.length
  nodup : cycle.Nodup
  chain : cycle.IsChain document.Refers
  closes : ∃ first last, cycle.head? = some first ∧ cycle.getLast? = some last ∧
    document.Refers last first

theorem IsReferenceCycle.transGen {document : Document} {cycle : List Nat}
    (h : document.IsReferenceCycle cycle) :
    ∃ index, Relation.TransGen document.Refers index index := by
  obtain ⟨first, last, hfirst, hlast, hrefers⟩ := h.closes
  have hne : cycle ≠ [] := fun hnil => by simp [hnil] at hfirst
  have hchain := List.relationReflTransGen_of_exists_isChain cycle h.chain hne
  rw [List.head_eq_iff_head?_eq_some hne |>.2 hfirst,
    List.getLast_eq_iff_getLast?_eq_some hne |>.2 hlast] at hchain
  exact ⟨first, .tail' hchain hrefers⟩

def AreNamesOf (document : Document) (names : List String) (indices : List Nat) : Prop :=
  indices.map (document.names[·]?) = names.map some

theorem areNamesOf_filterMap {document : Document} {indices : List Nat}
    (hlt : ∀ index ∈ indices, index < document.declarations.length) :
    document.AreNamesOf (indices.filterMap (document.names[·]?)) indices := by
  unfold AreNamesOf
  induction indices with
  | nil => rfl
  | cons index indices ih =>
    have hlength : index < document.names.length := by
      simpa [names] using hlt index List.mem_cons_self
    have hindex := List.getElem?_eq_getElem hlength
    rw [List.map_cons, List.filterMap_cons_some hindex, List.map_cons, hindex,
      ih fun other hother => hlt other (List.mem_cons_of_mem _ hother)]

end Document

namespace DependencySearch

variable {document : Document}

theorem takeWhile_ne_append_cons {before after : List Nat} {start : Nat} (h : start ∉ before) :
    (before ++ start :: after).takeWhile (· ≠ start) = before := by
  rw [List.takeWhile_append_of_pos fun index hindex => by grind]
  simp

/-- The names of a cycle are those of the declarations on the way from its start on. -/
theorem areNamesOf_cycleNames {before after : List Nat} {start : Nat} (h : start ∉ before)
    (hlt : ∀ index ∈ before ++ [start], index < document.declarations.length) :
    document.AreNamesOf (cycleNames document (before ++ start :: after) start)
      (before ++ [start]).reverse := by
  have hnames : cycleNames document (before ++ start :: after) start =
      (before ++ [start]).reverse.filterMap (document.names[·]?) := by
    unfold cycleNames
    rw [takeWhile_ne_append_cons h, List.map_filterMap]
    apply List.filterMap_congr
    intro index _
    simp [Document.names, Document.graphNodes, Function.comp_def]
  rw [hnames]
  exact Document.areNamesOf_filterMap fun index hindex => hlt index (List.mem_reverse.1 hindex)

end DependencySearch

open DependencySearch

variable {document : Document}

namespace SearchStage.Valid

variable {stage : SearchStage}

theorem lt_of_mem_way (h : stage.Valid document) {index : Nat} (hindex : index ∈ stage.way) :
    index < document.declarations.length :=
  (h.first index (List.mem_append_right _ hindex)).1

theorem isChain_way (h : stage.Valid document) :
    stage.way.IsChain fun upper lower => document.Refers lower upper := by
  refine (List.isChain_map _).2 (h.linked.imp_of_mem_imp ?_)
  rintro upper lower _ hlower ⟨seen, hseen⟩
  refine Document.mem_references.1 ((h.seen lower hlower).subset ?_)
  simp [hseen]

theorem isReferenceCycle (h : stage.Valid document) {before after : List Nat} {last start : Nat}
    (hway : stage.way = before ++ start :: after) (hlast : stage.way.head? = some last)
    (hrefers : document.Refers last start) :
    document.IsReferenceCycle (before ++ [start]).reverse := by
  have hwhole : stage.way = (before ++ [start]) ++ after := by simp [hway]
  have hnodup := (List.nodup_append.1 h.nodup).2.1
  rw [hway] at hlast
  cases before with
  | nil =>
    have : start = last := by simpa using hlast
    exact absurd this hrefers.1
  | cons head before =>
    obtain rfl : head = last := by simpa using hlast
    constructor
    case two_le => simp
    case nodup =>
      rw [hwhole] at hnodup
      exact List.nodup_reverse.2 (List.nodup_append.1 hnodup).1
    case chain => exact List.isChain_reverse.2 (hwhole ▸ h.isChain_way).left_of_append
    case closes => exact ⟨start, head, by simp, by rw [List.getLast?_reverse]; rfl, hrefers⟩

end SearchStage.Valid

/-- What holds of the recorded cycles. -/
structure DependencySearch.CyclesValid (document : Document) (search : DependencySearch) :
    Prop where
  genuine : ∀ names ∈ search.cycles, ∃ cycle, document.IsReferenceCycle cycle ∧
    document.AreNamesOf names cycle
  /-- The names on cycles are those of the recorded cycles. -/
  circular : ∀ name, name ∈ search.circular ↔ ∃ names ∈ search.cycles, name ∈ names
  nodup : search.circular.Nodup

theorem DependencySearch.mem_foldl_include? {names items : List String} {name : String} :
    name ∈ names.foldl include? items ↔ name ∈ items ∨ name ∈ names := by
  induction names generalizing items with
  | nil => simp
  | cons head names ih => rw [List.foldl_cons, ih, mem_include?, List.mem_cons, or_assoc]

theorem DependencySearch.nodup_foldl_include? {names items : List String} (h : items.Nodup) :
    (names.foldl include? items).Nodup := by
  induction names generalizing items with
  | nil => exact h
  | cons head names ih => exact ih (nodup_include? h)

theorem DependencySearch.CyclesValid.recordCycle {search : DependencySearch} {names : List String}
    {cycle : List Nat} (h : search.CyclesValid document) (hcycle : document.IsReferenceCycle cycle)
    (hnames : document.AreNamesOf names cycle) :
    (search.recordCycle names).CyclesValid document := by
  constructor
  case genuine =>
    intro other hother
    rcases List.mem_append.1 hother with hother | hother
    · exact h.genuine other hother
    · rw [List.mem_singleton] at hother
      exact ⟨cycle, hcycle, hother ▸ hnames⟩
  case circular =>
    intro name
    have hcycles : (search.recordCycle names).cycles = search.cycles ++ [names] := rfl
    change name ∈ names.foldl include? search.circular ↔ _
    rw [mem_foldl_include?, h.circular, hcycles]
    simp [or_and_right, exists_or]
  case nodup => exact nodup_foldl_include? h.nodup

theorem SearchStep.cyclesValid {stage after : SearchStage} (hstep : SearchStep document stage after)
    (h : stage.Valid document) (hcycles : stage.search.CyclesValid document) :
    after.search.CyclesValid document := by
  cases hstep with
  | start _ _ => exact hcycles
  | pass _ _ => exact hcycles
  | skip _ _ _ => exact ⟨hcycles.genuine, hcycles.circular, hcycles.nodup⟩
  | enter _ _ _ => exact ⟨hcycles.genuine, hcycles.circular, hcycles.nodup⟩
  | finish => exact ⟨hcycles.genuine, hcycles.circular, hcycles.nodup⟩
  | @close index seen before frames next finished search other rest href hway =>
    obtain ⟨upper, lower, hsplit, hout⟩ := List.eq_append_cons_of_mem hway
    have hrefers : document.Refers index other := Document.mem_references.1 (by simp [href])
    apply hcycles.recordCycle (h.isReferenceCycle hsplit (by rfl) hrefers)
    rw [hsplit]
    refine areNamesOf_cycleNames hout fun i hi => h.lt_of_mem_way ?_
    change i ∈ index :: frames.map SearchFrame.index
    rw [hsplit]
    grind

theorem Document.cyclesValid_dependencySearch (document : Document) :
    document.dependencySearch.CyclesValid document := by
  obtain ⟨_, h⟩ := SearchStep.invariant document
    (P := fun stage => stage.Valid document ∧ stage.search.CyclesValid document)
    ⟨.initial, ⟨by simp [SearchStage.initial], by simp [SearchStage.initial],
      by simp [SearchStage.initial]⟩⟩
    fun hstep h => ⟨hstep.valid h.1, hstep.cyclesValid h.1 h.2⟩
  exact h.2

namespace DependencyGraph

theorem exists_isReferenceCycle_of_mem_cycles {names : List String}
    (h : names ∈ (ofDocument document).cycles) :
    ∃ cycle, document.IsReferenceCycle cycle ∧ document.AreNamesOf names cycle :=
  document.cyclesValid_dependencySearch.genuine names h

/-- Names are on cycles when a cycle was recorded. -/
theorem isCircular_iff_cycles_ne_nil :
    (ofDocument document).isCircular = true ↔ (ofDocument document).cycles ≠ [] := by
  have hvalid := document.cyclesValid_dependencySearch
  have hcircular : (ofDocument document).isCircular = true ↔
      ∃ name, name ∈ document.dependencySearch.circular := by
    change (!document.dependencySearch.circular.isEmpty) = true ↔ _
    rw [Bool.not_eq_true', List.isEmpty_eq_false_iff_exists_mem]
  rw [hcircular]
  change _ ↔ document.dependencySearch.cycles ≠ []
  constructor
  · rintro ⟨name, hname⟩
    obtain ⟨names, hnames, _⟩ := (hvalid.circular name).1 hname
    exact List.ne_nil_of_mem hnames
  · intro hne
    obtain ⟨names, hnames⟩ := List.exists_mem_of_ne_nil _ hne
    obtain ⟨cycle, hcycle, hof⟩ := hvalid.genuine names hnames
    have hlength : cycle.length = names.length := by simpa using congrArg List.length hof
    have htwo := hcycle.two_le
    obtain ⟨name, hname⟩ := List.exists_mem_of_length_pos (l := names) (by omega)
    exact ⟨name, (hvalid.circular name).2 ⟨names, hnames, hname⟩⟩

/-- The end of the search, seen from its graph: where there are no cycles, all references are kept,
and the order declarations were finished in has dependencies first. -/
structure Finished (document : Document) (finished : List Nat) : Prop where
  nodup : finished.Nodup
  first : ∀ index, index ∈ finished ↔ document.IsFirst index
  edges : ∀ edge ∈ (ofDocument document).edges,
    [edge.2, edge.1].Sublist finished ∧ document.Refers edge.1 edge.2
  followed : (ofDocument document).cycles = [] → ∀ index other, document.IsFirst index →
    document.Refers index other → (index, other) ∈ (ofDocument document).edges

theorem exists_finished (document : Document) : ∃ finished, Finished document finished := by
  obtain ⟨finished, h⟩ := exists_valid_ofDocument document
  have horder : finished ++ SearchStage.way
      ⟨[], document.declarations.length, finished, document.dependencySearch⟩ = finished :=
    List.append_nil finished
  have hfirst (index : Nat) : index ∈ finished ↔ document.IsFirst index :=
    ⟨fun hmem => h.first index (List.mem_append_left _ hmem),
      fun hfirst => horder ▸ h.started index hfirst.1 hfirst⟩
  refine ⟨finished, horder ▸ h.nodup, hfirst, fun edge hedge => horder ▸ h.edges edge hedge, ?_⟩
  intro hcycles index other hindex hrefers
  have hreference := Document.mem_references.2 hrefers
  exact (h.followed index other (.inl ⟨(hfirst index).2 hindex, hreference⟩)).resolve_right
    (not_not_intro hcycles)

theorem idxOf_lt_of_sublist {items : List Nat} (hnodup : items.Nodup) {former latter : Nat}
    (h : [former, latter].Sublist items) : items.idxOf former < items.idxOf latter := by
  have hpairwise : items.Pairwise fun former latter =>
      items.idxOf former < items.idxOf latter := by
    rw [List.pairwise_iff_getElem]
    intro i j hi hj hlt
    rwa [hnodup.idxOf_getElem, hnodup.idxOf_getElem]
  exact List.pairwise_iff_forall_sublist.1 hpairwise h

/-- Where no cycle is recorded, what a declaration depends on was finished before it. -/
theorem Finished.idxOf_lt_of_transGen {finished : List Nat} (h : Finished document finished)
    (hcycles : (ofDocument document).cycles = []) {index other : Nat}
    (hfirst : document.IsFirst index) (htrans : Relation.TransGen document.Refers index other) :
    finished.idxOf other < finished.idxOf index := by
  have hstep {i j : Nat} (hi : document.IsFirst i) (hrefers : document.Refers i j) :
      finished.idxOf j < finished.idxOf i :=
    idxOf_lt_of_sublist h.nodup (h.edges _ (h.followed hcycles i j hi hrefers)).1
  induction htrans with
  | single hrefers => exact hstep hfirst hrefers
  | tail htrans hrefers ih =>
    obtain ⟨_, _, hlast⟩ := Relation.TransGen.tail'_iff.1 htrans
    have hmiddle := Document.isFirst_of_mem_references (Document.mem_references.2 hlast)
    exact (hstep hmiddle hrefers).trans ih

/-- Some name is on a cycle exactly if some declaration depends on itself. -/
theorem isCircular_iff_exists_transGen : (ofDocument document).isCircular = true ↔
    ∃ index, Relation.TransGen document.Refers index index := by
  rw [isCircular_iff_cycles_ne_nil]
  constructor
  · intro hne
    obtain ⟨names, hnames⟩ := List.exists_mem_of_ne_nil _ hne
    obtain ⟨cycle, hcycle, _⟩ := exists_isReferenceCycle_of_mem_cycles hnames
    exact hcycle.transGen
  · rintro ⟨index, htrans⟩ hnil
    obtain ⟨finished, hfinished⟩ := exists_finished document
    obtain ⟨_, _, hlast⟩ := Relation.TransGen.tail'_iff.1 htrans
    have hfirst := Document.isFirst_of_mem_references (Document.mem_references.2 hlast)
    exact Nat.lt_irrefl _ (hfinished.idxOf_lt_of_transGen hnil hfirst htrans)

/-- The graph of a document, in which names may be declared more than once, is circular exactly if
the references have a cycle, and every cycle it records is one. -/
theorem isCircular_exact_and_cycles_genuine (document : Document) :
    ((ofDocument document).isCircular = true ↔
        ∃ index, Relation.TransGen document.Refers index index) ∧
      ∀ names ∈ (ofDocument document).cycles,
        ∃ cycle, document.IsReferenceCycle cycle ∧ document.AreNamesOf names cycle :=
  ⟨isCircular_iff_exists_transGen, fun _ => exists_isReferenceCycle_of_mem_cycles⟩

end DependencyGraph

end DecisionLang
