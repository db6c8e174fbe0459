import DecisionLang.Dependency.Graph
import Mathlib.Logic.Relation

/-!
# The search for cycles, step by step

The recursion of `DependencySearch.expand` is unrolled to a relation between stages. A stage holds
the way from the start of the search to the declaration that is being expanded, with the references
followed at each declaration on it, and the declarations that are finished. Main statement: the
search of a document is a run of these steps (`exists_run_ofDocument`), so what every step keeps
holds of the graph.
-/

namespace DecisionLang

/-- A declaration on the way of a search. -/
structure SearchFrame where
  index : Nat
  /-- The references that have been followed, the latest one last. -/
  seen : List Nat
  /-- The declarations that were finished when this one was entered. -/
  before : List Nat

/-- A search between two steps. -/
structure SearchStage where
  /-- The declarations on the way, its end first. -/
  frames : List SearchFrame
  /-- All declarations before this one have been started from. -/
  next : Nat
  /-- In the order they were finished. -/
  finished : List Nat
  search : DependencySearch

namespace SearchStage

def way (stage : SearchStage) : List Nat := stage.frames.map SearchFrame.index

def initial : SearchStage := ⟨[], 0, [], {}⟩

end SearchStage

open DependencySearch

/-- The steps of the search of a document: it starts at a declaration or passes it, follows the
next reference of the end of the way, or finishes that declaration. -/
inductive SearchStep (document : Document) : SearchStage → SearchStage → Prop
  | start {next finished search} (hlt : next < document.declarations.length)
      (hnew : search.isExpanded document next = false) :
      SearchStep document ⟨[], next, finished, search⟩
        ⟨[⟨next, [], finished⟩], next + 1, finished, search⟩
  | pass {next finished search} (hlt : next < document.declarations.length)
      (hold : search.isExpanded document next = true) :
      SearchStep document ⟨[], next, finished, search⟩ ⟨[], next + 1, finished, search⟩
  | close {index seen before frames next finished search other rest}
      (href : document.references index = seen ++ other :: rest)
      (hway : other ∈ index :: frames.map SearchFrame.index) :
      SearchStep document ⟨⟨index, seen, before⟩ :: frames, next, finished, search⟩
        ⟨⟨index, seen ++ [other], before⟩ :: frames, next, finished,
          search.recordCycle
            (cycleNames document (index :: frames.map SearchFrame.index) other)⟩
  | skip {index seen before frames next finished search other rest}
      (href : document.references index = seen ++ other :: rest)
      (hway : other ∉ index :: frames.map SearchFrame.index)
      (hold : search.isExpanded document other = true) :
      SearchStep document ⟨⟨index, seen, before⟩ :: frames, next, finished, search⟩
        ⟨⟨index, seen ++ [other], before⟩ :: frames, next, finished,
          search.recordEdge (index, other)⟩
  | enter {index seen before frames next finished search other rest}
      (href : document.references index = seen ++ other :: rest)
      (hway : other ∉ index :: frames.map SearchFrame.index)
      (hnew : search.isExpanded document other = false) :
      SearchStep document ⟨⟨index, seen, before⟩ :: frames, next, finished, search⟩
        ⟨⟨other, [], finished⟩ :: ⟨index, seen ++ [other], before⟩ :: frames, next, finished,
          search.recordEdge (index, other)⟩
  | finish {index before frames next finished search} :
      SearchStep document
        ⟨⟨index, document.references index, before⟩ :: frames, next, finished, search⟩
        ⟨frames, next, finished ++ [index], search.finish document index⟩

abbrev SearchRun (document : Document) : SearchStage → SearchStage → Prop :=
  Relation.ReflTransGen (SearchStep document)

namespace DependencySearch

variable {document : Document}

@[simp] theorem isExpanded_recordEdge (search : DependencySearch) (edge : Nat × Nat)
    (index : Nat) :
    (search.recordEdge edge).isExpanded document index = search.isExpanded document index := rfl

@[simp] theorem isExpanded_recordCycle (search : DependencySearch) (names : List String)
    (index : Nat) :
    (search.recordCycle names).isExpanded document index = search.isExpanded document index := rfl

/-- Expanding the end of a way goes through steps that leave the rest of the way as it is. -/
theorem exists_run_expand (way : List Nat) (index : Nat) (search : DependencySearch)
    (hlt : index < document.declarations.length) (hway : index ∉ way)
    (frames : List SearchFrame) (hframes : frames.map SearchFrame.index = way)
    (next : Nat) (finished before : List Nat) :
    ∃ later, SearchRun document
      ⟨⟨index, [], before⟩ :: frames, next, finished, search⟩
      ⟨frames, next, later, expand document way index search⟩ := by
  rw [expand, dif_pos ⟨List.mem_range.2 hlt, hway⟩]
  -- Induction on the references still to follow; `seen` and the stage grow with it.
  suffices follows : ∀ rest seen finished search,
      document.references index = seen ++ rest →
      ∃ later, SearchRun document
        ⟨⟨index, seen, before⟩ :: frames, next, finished, search⟩
        ⟨⟨index, document.references index, before⟩ :: frames, next, later,
          rest.foldl (follow document (index :: way) index
            fun other search => expand document (index :: way) other search) search⟩ by
    obtain ⟨later, hrun⟩ := follows _ [] finished search rfl
    exact ⟨later ++ [index], hrun.tail .finish⟩
  intro rest
  induction rest with
  | nil =>
    intro seen finished search href
    rw [List.append_nil] at href
    exact ⟨finished, href ▸ .refl⟩
  | cons other rest ih =>
    intro seen finished search href
    have hnext : document.references index = (seen ++ [other]) ++ rest := by simp [href]
    rw [List.foldl_cons, follow]
    by_cases hother : other ∈ index :: way
    · rw [if_pos (List.contains_iff_mem.2 hother)]
      obtain ⟨later, hrun⟩ := ih _ finished _ hnext
      subst hframes
      exact ⟨later, .head (.close href hother) hrun⟩
    · rw [if_neg (mt List.contains_iff_mem.1 hother)]
      cases hexpanded : search.isExpanded document other with
      | true =>
        obtain ⟨later, hrun⟩ := ih _ finished (search.recordEdge (index, other)) hnext
        subst hframes
        simp only [isExpanded_recordEdge, hexpanded, ↓reduceIte]
        exact ⟨later, .head (.skip href hother hexpanded) hrun⟩
      | false =>
        have hmem : other ∈ document.references index := by simp [href]
        obtain ⟨inner, hinner⟩ := exists_run_expand (index :: way) other
          (search.recordEdge (index, other)) (Document.lt_of_mem_references hmem) hother
          (⟨index, seen ++ [other], before⟩ :: frames) (by simp [hframes])
          next finished finished
        obtain ⟨later, hrun⟩ := ih _ inner _ hnext
        subst hframes
        simp only [isExpanded_recordEdge, hexpanded, Bool.false_eq_true, ↓reduceIte]
        exact ⟨later, .head (.enter href hother hexpanded) (hinner.trans hrun)⟩
termination_by unmet (List.range document.declarations.length) way
decreasing_by exact unmet_cons_lt (List.mem_range.2 hlt) hway

theorem exists_run_start (search : DependencySearch) {next : Nat} (finished : List Nat)
    (hlt : next < document.declarations.length) :
    ∃ later, SearchRun document ⟨[], next, finished, search⟩
      ⟨[], next + 1, later, start document search next⟩ := by
  cases hexpanded : search.isExpanded document next with
  | true => exact ⟨finished, .single (by simpa [start, hexpanded] using .pass hlt hexpanded)⟩
  | false =>
    obtain ⟨later, hrun⟩ := exists_run_expand [] next search hlt (by simp) [] rfl
      (next + 1) finished finished
    exact ⟨later, .head (.start hlt hexpanded) (by simpa [start, hexpanded] using hrun)⟩

end DependencySearch

/-- The search of a document, as its graph keeps it. -/
def Document.dependencySearch (document : Document) : DependencySearch :=
  (List.range document.declarations.length).foldl (DependencySearch.start document) {}

theorem exists_run_ofDocument (document : Document) :
    ∃ finished, SearchRun document .initial
      ⟨[], document.declarations.length, finished, document.dependencySearch⟩ := by
  suffices upTo : ∀ count ≤ document.declarations.length, ∃ finished,
      SearchRun document .initial
        ⟨[], count, finished, (List.range count).foldl (DependencySearch.start document) {}⟩ from
    upTo _ (Nat.le_refl _)
  intro count
  induction count with
  | zero => exact fun _ => ⟨[], .refl⟩
  | succ count ih =>
    intro hle
    obtain ⟨finished, hrun⟩ := ih (Nat.le_of_succ_le hle)
    obtain ⟨later, hstart⟩ := DependencySearch.exists_run_start _ finished hle
    exact ⟨later, by simpa [List.range_succ] using hrun.trans hstart⟩

/-- What every step keeps holds at the end of the search. -/
theorem SearchStep.invariant (document : Document) {P : SearchStage → Prop}
    (initial : P .initial)
    (step : ∀ {stage after}, SearchStep document stage after → P stage → P after) :
    ∃ finished, P ⟨[], document.declarations.length, finished, document.dependencySearch⟩ := by
  obtain ⟨finished, hrun⟩ := exists_run_ofDocument document
  refine ⟨finished, ?_⟩
  generalize (⟨[], document.declarations.length, finished, document.dependencySearch⟩ :
    SearchStage) = stage at hrun
  induction hrun with
  | refl => exact initial
  | tail _ hstep ih => exact step hstep ih

end DecisionLang
