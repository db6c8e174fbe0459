import DecisionLang.Proofs.Dependency.Search
import Mathlib.Data.List.Chain
import Mathlib.Data.List.Nodup

/-!
# Stages of the search

`SearchStage.Valid` says what holds between two steps of the search. Declarations of one name and
sort count as one for the search, but only the first of them is ever entered: references lead to
first declarations, and a later one is met as a start when the first one is finished. So the
declarations that are finished or on the way are told apart by name and sort, and the order they are
finished in puts every dependency before what depends on it. Main statements: `SearchStep.valid` and
`exists_valid_ofDocument`.
-/

namespace DecisionLang

namespace Document

/-- A declaration refers to another one that is the first with a name occurring in it. -/
def Refers (document : Document) (index other : Nat) : Prop :=
  other ≠ index ∧ ∃ declaration name, document.declarations[index]? = some declaration ∧
    name ∈ declaration.referredNames ∧ document.indexOf? name = some other

/-- No earlier declaration has the name and sort of this one. -/
def IsFirst (document : Document) (index : Nat) : Prop :=
  index < document.declarations.length ∧
    ∀ earlier < index, document.graphNodes[earlier]? ≠ document.graphNodes[index]?

variable {document : Document}

theorem mem_references {index other : Nat} :
    other ∈ document.references index ↔ document.Refers index other := by
  unfold references Refers
  cases hd : document.declarations[index]? with
  | none => simp
  | some declaration => simp [and_comm]

@[simp] theorem length_graphNodes : document.graphNodes.length = document.declarations.length := by
  simp [graphNodes]

theorem isFirst_of_indexOf? {name : String} {index : Nat}
    (h : document.indexOf? name = some index) : document.IsFirst index := by
  obtain ⟨hlt, hname, hearlier⟩ := List.findIdx?_eq_some_iff_getElem.1 h
  refine ⟨hlt, fun earlier hlt' heq => ?_⟩
  have hnode := congrArg (Option.map GraphNode.name) heq
  simp only [graphNodes, List.getElem?_map, Option.map_map] at hnode
  rw [List.getElem?_eq_getElem hlt, List.getElem?_eq_getElem (hlt'.trans hlt)] at hnode
  simp only [Option.map_some, Function.comp_apply, Option.some.injEq] at hnode
  exact hearlier earlier hlt' (by simpa [hnode] using hname)

theorem isFirst_of_mem_references {index other : Nat} (h : other ∈ document.references index) :
    document.IsFirst other := by
  obtain ⟨_, _, _, _, _, hindex⟩ := mem_references.1 h
  exact isFirst_of_indexOf? hindex

theorem IsFirst.eq {index other : Nat} (hindex : document.IsFirst index)
    (hother : document.IsFirst other)
    (heq : document.graphNodes[index]? = document.graphNodes[other]?) : index = other := by
  rcases Nat.lt_trichotomy index other with h | h | h
  · exact absurd heq (hother.2 index h)
  · exact h
  · exact absurd heq.symm (hindex.2 other h)

theorem exists_isFirst {index : Nat} (hlt : index < document.declarations.length) :
    ∃ first ≤ index, document.IsFirst first ∧
      document.graphNodes[first]? = document.graphNodes[index]? := by
  induction index using Nat.strongRecOn with
  | ind index ih =>
    by_cases h : ∀ earlier < index, document.graphNodes[earlier]? ≠ document.graphNodes[index]?
    · exact ⟨index, Nat.le_refl _, ⟨hlt, h⟩, rfl⟩
    · push Not at h
      obtain ⟨earlier, hearlier, heq⟩ := h
      obtain ⟨first, hle, hfirst, hnode⟩ := ih earlier hearlier (hearlier.trans hlt)
      exact ⟨first, hle.trans hearlier.le, hfirst, hnode.trans heq⟩

theorem isFirst_of_nodup (hnames : document.names.Nodup) {index : Nat}
    (hlt : index < document.declarations.length) : document.IsFirst index := by
  refine ⟨hlt, fun earlier hearlier heq => ?_⟩
  have hname := congrArg (Option.map GraphNode.name) heq
  simp only [graphNodes, List.getElem?_map, Option.map_map] at hname
  have hnames' : document.names[earlier]? = document.names[index]? := by
    simpa [names, Function.comp_def] using hname
  have := (List.getElem?_inj (by simpa [names] using hearlier.trans hlt) hnames).1 hnames'
  omega

end Document

/-- A reference that has been followed. -/
def SearchStage.Followed (document : Document) (stage : SearchStage) (index other : Nat) : Prop :=
  index ∈ stage.finished ∧ other ∈ document.references index ∨
    ∃ frame ∈ stage.frames, frame.index = index ∧ other ∈ frame.seen

namespace SearchStage

variable {document : Document} {frames : List SearchFrame} {next next' : Nat} {finished : List Nat}
  {search search' : DependencySearch} {index i j : Nat} {before : List Nat}

/-- No reference of a declaration is followed when it is entered. -/
theorem followed_enter :
    Followed document ⟨⟨index, [], before⟩ :: frames, next, finished, search⟩ i j ↔
      Followed document ⟨frames, next', finished, search'⟩ i j := by
  simp [Followed]

theorem followed_follow {seen : List Nat} {other : Nat} :
    Followed document ⟨⟨index, seen ++ [other], before⟩ :: frames, next, finished, search⟩ i j ↔
      Followed document ⟨⟨index, seen, before⟩ :: frames, next', finished, search'⟩ i j ∨
        i = index ∧ j = other := by
  simp only [Followed, List.mem_cons, exists_eq_or_imp, List.mem_append, List.not_mem_nil, or_false]
  grind

theorem followed_finish :
    Followed document ⟨frames, next, finished ++ [index], search⟩ i j ↔
      Followed document ⟨⟨index, document.references index, before⟩ :: frames, next', finished,
        search'⟩ i j := by
  simp only [Followed, List.mem_cons, exists_eq_or_imp, List.mem_append, List.not_mem_nil, or_false]
  grind

end SearchStage

/-- What holds between two steps of the search. -/
structure SearchStage.Valid (document : Document) (stage : SearchStage) : Prop where
  nodup : (stage.finished ++ stage.way).Nodup
  first : ∀ index ∈ stage.finished ++ stage.way, document.IsFirst index
  expanded : stage.search.expanded = stage.finished.filterMap (document.graphNodes[·]?)
  /-- Each declaration on the way was entered by the latest reference of the one before it. -/
  linked : stage.frames.IsChain fun upper lower => ∃ seen, lower.seen = seen ++ [upper.index]
  seen : ∀ frame ∈ stage.frames, frame.seen <+: document.references frame.index
  started : ∀ index < stage.next, document.IsFirst index → index ∈ stage.finished ++ stage.way
  /-- The declarations on the way will be finished after the finished ones, its end first, and
  what depends on another declaration comes after it in this order. -/
  edges : ∀ edge ∈ stage.search.edges,
    [edge.2, edge.1].Sublist (stage.finished ++ stage.way) ∧ document.Refers edge.1 edge.2
  /-- A reference that was followed either became an edge or closed a cycle. -/
  followed : ∀ index other, stage.Followed document index other →
    (index, other) ∈ stage.search.edges ∨ stage.search.cycles ≠ []

namespace SearchStage.Valid

variable {document : Document} {stage : SearchStage}

theorem initial : SearchStage.initial.Valid document := by
  constructor <;> simp [SearchStage.initial, SearchStage.way, Followed]

/-- For first declarations, being finished is what the search looks up by name and sort. -/
theorem isExpanded_iff (h : stage.Valid document) {index : Nat} (hfirst : document.IsFirst index) :
    stage.search.isExpanded document index = true ↔ index ∈ stage.finished := by
  have hsome := List.getElem?_eq_getElem (l := document.graphNodes) (by simpa using hfirst.1)
  unfold DependencySearch.isExpanded
  simp only [hsome, Option.any_some, List.contains_iff_mem, h.expanded, List.mem_filterMap]
  constructor
  · rintro ⟨other, hother, heq⟩
    have := (h.first other (List.mem_append_left _ hother)).eq hfirst (heq.trans hsome.symm)
    rwa [← this]
  · exact fun hmem => ⟨index, hmem, hsome⟩

theorem isFirst_of_start {next : Nat} {finished : List Nat} {search : DependencySearch}
    (h : SearchStage.Valid document ⟨[], next, finished, search⟩)
    (hlt : next < document.declarations.length)
    (hnew : search.isExpanded document next = false) : document.IsFirst next := by
  obtain ⟨first, hle, hfirst, hnode⟩ := document.exists_isFirst hlt
  rcases Nat.lt_or_eq_of_le hle with hlt' | rfl
  · have hmem : first ∈ finished := by simpa [SearchStage.way] using h.started first hlt' hfirst
    have hexpanded := (h.isExpanded_iff hfirst).2 hmem
    unfold DependencySearch.isExpanded at hexpanded hnew
    rw [hnode] at hexpanded
    simp [hexpanded] at hnew
  · exact hfirst

theorem notMem_finished {index : Nat} (h : stage.Valid document) (hfirst : document.IsFirst index)
    (hnew : stage.search.isExpanded document index = false) : index ∉ stage.finished := by
  intro hmem
  rw [(h.isExpanded_iff hfirst).2 hmem] at hnew
  cases hnew

end SearchStage.Valid

namespace DependencySearch

theorem mem_include? {α : Type} [BEq α] [LawfulBEq α] {items : List α} {item other : α} :
    other ∈ include? items item ↔ other ∈ items ∨ other = item := by
  unfold include?
  split
  · next h => exact ⟨.inl, fun h' => h'.elim id fun h' => h' ▸ List.contains_iff_mem.1 h⟩
  · simp

theorem nodup_include? {α : Type} [BEq α] [LawfulBEq α] {items : List α} {item : α}
    (h : items.Nodup) : (include? items item).Nodup := by
  unfold include?
  split
  · exact h
  · next hitem =>
    rw [List.contains_iff_mem] at hitem
    exact List.nodup_append.2 ⟨h, List.nodup_singleton _, by grind⟩

theorem mem_edges_recordEdge {search : DependencySearch} {edge other : Nat × Nat} :
    other ∈ (search.recordEdge edge).edges ↔ other ∈ search.edges ∨ other = edge :=
  mem_include?

end DependencySearch

open DependencySearch

namespace SearchStage.Valid

variable {document : Document} {next : Nat} {finished : List Nat} {search : DependencySearch}

theorem start (h : SearchStage.Valid document ⟨[], next, finished, search⟩)
    (hlt : next < document.declarations.length)
    (hnew : search.isExpanded document next = false) :
    SearchStage.Valid document ⟨[⟨next, [], finished⟩], next + 1, finished, search⟩ := by
  have hfirst := h.isFirst_of_start hlt hnew
  have hout : next ∉ finished := h.notMem_finished hfirst hnew
  have hway : SearchStage.way ⟨[], next, finished, search⟩ = [] := rfl
  have hway' : SearchStage.way ⟨[⟨next, [], finished⟩], next + 1, finished, search⟩ = [next] := rfl
  constructor
  case nodup =>
    have := h.nodup
    simp only [hway, hway', List.append_nil] at this ⊢
    exact List.nodup_append.2 ⟨this, List.nodup_singleton _, by grind⟩
  case first =>
    intro index hmem
    rw [hway', List.mem_append, List.mem_singleton] at hmem
    rcases hmem with hmem | rfl
    · exact h.first index (List.mem_append_left _ hmem)
    · exact hfirst
  case expanded => exact h.expanded
  case linked => exact List.isChain_singleton _
  case seen => simp
  case started =>
    intro index hindex hfirst'
    rw [hway', List.mem_append, List.mem_singleton]
    rcases Nat.lt_or_eq_of_le (Nat.lt_succ_iff.1 hindex) with hlt' | rfl
    · exact .inl (by simpa [hway] using h.started index hlt' hfirst')
    · exact .inr rfl
  case edges =>
    intro edge hedge
    obtain ⟨hsub, hrefers⟩ := h.edges edge hedge
    rw [hway, List.append_nil] at hsub
    exact ⟨hsub.trans (List.sublist_append_left _ _), hrefers⟩
  case followed =>
    intro index other hfollowed
    exact h.followed index other (followed_enter.1 hfollowed)

theorem pass (h : SearchStage.Valid document ⟨[], next, finished, search⟩)
    (hold : search.isExpanded document next = true) :
    SearchStage.Valid document ⟨[], next + 1, finished, search⟩ where
  nodup := h.nodup
  first := h.first
  expanded := h.expanded
  linked := h.linked
  seen := h.seen
  started index hindex hfirst := by
    rcases Nat.lt_or_eq_of_le (Nat.lt_succ_iff.1 hindex) with hlt | rfl
    · exact h.started index hlt hfirst
    · exact List.mem_append_left _ ((h.isExpanded_iff hfirst).1 hold)
  edges := h.edges
  followed := h.followed

variable {index other : Nat} {seen before rest : List Nat} {frames : List SearchFrame}

/-- Following one more reference keeps the links of the way. -/
theorem linked_follow
    (h : SearchStage.Valid document ⟨⟨index, seen, before⟩ :: frames, next, finished, search⟩) :
    (⟨index, seen ++ [other], before⟩ :: frames : List SearchFrame).IsChain
      fun upper lower => ∃ seen, lower.seen = seen ++ [upper.index] :=
  List.isChain_cons.2 (List.isChain_cons.1 h.linked)

theorem seen_follow
    (h : SearchStage.Valid document ⟨⟨index, seen, before⟩ :: frames, next, finished, search⟩)
    (href : document.references index = seen ++ other :: rest) :
    ∀ frame ∈ (⟨index, seen ++ [other], before⟩ :: frames : List SearchFrame),
      frame.seen <+: document.references frame.index := by
  intro frame hframe
  rcases List.mem_cons.1 hframe with rfl | hframe
  · exact ⟨rest, by simp [href]⟩
  · exact h.seen frame (List.mem_cons_of_mem _ hframe)

theorem close
    (h : SearchStage.Valid document ⟨⟨index, seen, before⟩ :: frames, next, finished, search⟩)
    (href : document.references index = seen ++ other :: rest) (names : List String) :
    SearchStage.Valid document
      ⟨⟨index, seen ++ [other], before⟩ :: frames, next, finished, search.recordCycle names⟩ where
  nodup := h.nodup
  first := h.first
  expanded := h.expanded
  linked := h.linked_follow
  seen := h.seen_follow href
  started := h.started
  edges := h.edges
  followed _ _ _ := .inr (by simp [recordCycle])

theorem followed_recordEdge
    (h : SearchStage.Valid document ⟨⟨index, seen, before⟩ :: frames, next, finished, search⟩)
    (i j : Nat)
    (hfollowed : Followed document ⟨⟨index, seen ++ [other], before⟩ :: frames, next, finished,
      search.recordEdge (index, other)⟩ i j) :
    (i, j) ∈ (search.recordEdge (index, other)).edges ∨ search.cycles ≠ [] := by
  rw [mem_edges_recordEdge, or_right_comm]
  rcases followed_follow.1 hfollowed with hfollowed | ⟨rfl, rfl⟩
  · exact .inl (h.followed i j hfollowed)
  · exact .inr rfl

/-- A reference that is not entered leads to a finished declaration. -/
theorem mem_finished_of_skip
    (h : SearchStage.Valid document ⟨⟨index, seen, before⟩ :: frames, next, finished, search⟩)
    (href : document.references index = seen ++ other :: rest)
    (hold : search.isExpanded document other = true) : other ∈ finished := by
  have hmem : other ∈ document.references index := by simp [href]
  exact (h.isExpanded_iff (Document.isFirst_of_mem_references hmem)).1 hold

theorem skip
    (h : SearchStage.Valid document ⟨⟨index, seen, before⟩ :: frames, next, finished, search⟩)
    (href : document.references index = seen ++ other :: rest)
    (hold : search.isExpanded document other = true) :
    SearchStage.Valid document ⟨⟨index, seen ++ [other], before⟩ :: frames, next, finished,
      search.recordEdge (index, other)⟩ where
  nodup := h.nodup
  first := h.first
  expanded := h.expanded
  linked := h.linked_follow
  seen := h.seen_follow href
  started := h.started
  edges edge hedge := by
    rcases mem_edges_recordEdge.1 hedge with hedge | rfl
    · exact h.edges edge hedge
    · have hmem : other ∈ document.references index := by simp [href]
      have hfinished := h.mem_finished_of_skip href hold
      refine ⟨?_, Document.mem_references.1 hmem⟩
      exact List.Sublist.append (List.singleton_sublist.2 hfinished)
        (List.singleton_sublist.2 List.mem_cons_self)
  followed := h.followed_recordEdge

theorem enter
    (h : SearchStage.Valid document ⟨⟨index, seen, before⟩ :: frames, next, finished, search⟩)
    (href : document.references index = seen ++ other :: rest)
    (hway : other ∉ index :: frames.map SearchFrame.index)
    (hnew : search.isExpanded document other = false) :
    SearchStage.Valid document ⟨⟨other, [], finished⟩ :: ⟨index, seen ++ [other], before⟩ :: frames,
      next, finished, search.recordEdge (index, other)⟩ := by
  have hmem : other ∈ document.references index := by simp [href]
  have hfirst := Document.isFirst_of_mem_references hmem
  have hout : other ∉ finished := h.notMem_finished hfirst hnew
  have hsub : (finished ++ index :: frames.map SearchFrame.index).Sublist
      (finished ++ other :: index :: frames.map SearchFrame.index) :=
    (List.sublist_cons_self _ _).append_left _
  constructor
  case nodup =>
    exact List.nodup_middle.2 (List.nodup_cons.2
      ⟨fun hin => (List.mem_append.1 hin).elim hout hway, h.nodup⟩)
  case first =>
    intro i hi
    rcases List.mem_cons.1 (List.perm_middle.mem_iff.1 hi) with rfl | hi
    · exact hfirst
    · exact h.first i hi
  case expanded => exact h.expanded
  case linked => exact List.isChain_cons_cons.2 ⟨⟨seen, rfl⟩, h.linked_follow⟩
  case seen =>
    intro frame hframe
    rcases List.mem_cons.1 hframe with rfl | hframe
    · exact List.nil_prefix
    · exact h.seen_follow href frame hframe
  case started => exact fun i hi hfirst' => hsub.mem (h.started i hi hfirst')
  case edges =>
    intro edge hedge
    rcases mem_edges_recordEdge.1 hedge with hedge | rfl
    · exact ⟨(h.edges edge hedge).1.trans hsub, (h.edges edge hedge).2⟩
    · refine ⟨List.sublist_append_of_sublist_right ?_, Document.mem_references.1 hmem⟩
      exact ((List.nil_sublist _).cons_cons _).cons_cons _
  case followed =>
    exact fun i j hfollowed => h.followed_recordEdge i j (followed_enter.1 hfollowed)

theorem finish
    (h : SearchStage.Valid document
      ⟨⟨index, document.references index, before⟩ :: frames, next, finished, search⟩) :
    SearchStage.Valid document
      ⟨frames, next, finished ++ [index], search.finish document index⟩ := by
  have horder : finished ++ [index] ++ frames.map SearchFrame.index =
      finished ++ index :: frames.map SearchFrame.index := by simp
  constructor
  case nodup => exact horder ▸ h.nodup
  case first => exact horder ▸ h.first
  case expanded =>
    have hexpanded : search.expanded = finished.filterMap (document.graphNodes[·]?) := h.expanded
    cases hnode : document.graphNodes[index]? <;>
      simp [DependencySearch.finish, hexpanded, List.filterMap_append, hnode]
  case linked => exact (List.isChain_cons.1 h.linked).2
  case seen => exact fun frame hframe => h.seen frame (List.mem_cons_of_mem _ hframe)
  case started => exact horder ▸ h.started
  case edges => exact horder ▸ h.edges
  case followed =>
    exact fun i j hfollowed => h.followed i j (followed_finish.1 hfollowed)

end SearchStage.Valid

/-- Every step of the search keeps what holds between steps. -/
theorem SearchStep.valid {document : Document} {stage after : SearchStage}
    (hstep : SearchStep document stage after) (h : stage.Valid document) :
    after.Valid document := by
  cases hstep with
  | start hlt hnew => exact h.start hlt hnew
  | pass _ hold => exact h.pass hold
  | close href _ => exact h.close href _
  | skip href _ hold => exact h.skip href hold
  | enter href hway hnew => exact h.enter href hway hnew
  | finish => exact h.finish

/-- The end of the search of a document, when nothing is on the way. -/
theorem exists_valid_ofDocument (document : Document) : ∃ finished, SearchStage.Valid document
    ⟨[], document.declarations.length, finished, document.dependencySearch⟩ :=
  SearchStep.invariant document .initial SearchStep.valid

end DecisionLang
