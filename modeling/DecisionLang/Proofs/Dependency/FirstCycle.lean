import DecisionLang.Dependency.Order
import DecisionLang.Proofs.Dependency.FirstWay
import DecisionLang.Proofs.Log

/-!
# Which cycles are reported

In a document without duplicate names, the cycles recorded by the search are exactly those that are
the end of a first way. A declaration that lies on such a cycle is reported once; one that lies on
other cycles only is not reported at all.

Main statements: `mem_cycles_iff` for the graph and `reportCircular_errorsOf` for the log.
-/

namespace DecisionLang

open Document SearchStage

variable {document : Document}

/-- A cycle at the end of a first way is on any first way to its last declaration. -/
theorem Document.IsFirstCycle.exists_eq_append {cycle way : List Nat}
    (h : document.IsFirstCycle cycle) (hway : document.IsFirstWay way)
    (hlast : way.getLast? = cycle.getLast?) : ∃ before, way = before ++ cycle := by
  obtain ⟨before, hbefore⟩ := h.way
  have hne : cycle ≠ [] := fun hnil => by simpa [hnil] using h.two_le
  refine ⟨before, hway.unique hbefore ?_⟩
  rw [hlast, List.getLast?_append_of_ne_nil _ hne]

/-- The recorded cycles are the ends of first ways that were closed so far. -/
structure SearchStage.RecordsFirst (document : Document) (stage : SearchStage) : Prop where
  sound : ∀ names ∈ stage.search.cycles,
    ∃ cycle, document.IsFirstCycle cycle ∧ document.AreNamesOf names cycle
  complete : ∀ cycle first last, document.IsFirstCycle cycle → cycle.head? = some first →
    cycle.getLast? = some last → stage.Followed document last first →
    ∃ names ∈ stage.search.cycles, document.AreNamesOf names cycle

namespace SearchStage.RecordsFirst

variable {next index other : Nat} {finished seen before rest : List Nat}
  {frames : List SearchFrame} {search : DependencySearch}

theorem initial : SearchStage.initial.RecordsFirst document := by
  constructor
  case sound => simp [SearchStage.initial]
  case complete =>
    intro cycle first last _ _ _ hfollowed
    simp [SearchStage.initial, Followed] at hfollowed

section Reference

variable
  (hvalid : SearchStage.Valid document ⟨⟨index, seen, before⟩ :: frames, next, finished, search⟩)
  (hremembers : SearchStage.Remembers document
    ⟨⟨index, seen, before⟩ :: frames, next, finished, search⟩)
  (h : SearchStage.RecordsFirst document ⟨⟨index, seen, before⟩ :: frames, next, finished, search⟩)

include hvalid hremembers h

theorem follow (hway : other ∉ index :: frames.map SearchFrame.index) :
    SearchStage.RecordsFirst document ⟨⟨index, seen ++ [other], before⟩ :: frames, next, finished,
      search.recordEdge (index, other)⟩ := by
  refine ⟨h.sound, ?_⟩
  intro cycle first last hcycle hfirst hlast hfollowed
  rcases followed_follow.1 hfollowed with hfollowed | ⟨rfl, rfl⟩
  · exact h.complete cycle first last hcycle hfirst hlast hfollowed
  · obtain ⟨front, hfront⟩ := hcycle.exists_eq_append (hvalid.isFirstWay hremembers)
      (by simp [way, hlast])
    have hmem : first ∈ front ++ cycle := List.mem_append_right _ (List.mem_of_head? hfirst)
    rw [← hfront, List.mem_reverse] at hmem
    exact absurd hmem hway

theorem close (href : document.references index = seen ++ other :: rest)
    (hway : other ∈ index :: frames.map SearchFrame.index) :
    SearchStage.RecordsFirst document ⟨⟨index, seen ++ [other], before⟩ :: frames, next, finished,
      search.recordCycle
        (DependencySearch.cycleNames document (index :: frames.map SearchFrame.index) other)⟩ := by
  obtain ⟨upper, lower, hsplit, hout⟩ := List.eq_append_cons_of_mem hway
  have hrefers : document.Refers index other := mem_references.1 (by simp [href])
  have hfirstWay : document.IsFirstWay (index :: frames.map SearchFrame.index).reverse :=
    hvalid.isFirstWay hremembers
  have hreverse : (index :: frames.map SearchFrame.index).reverse =
      lower.reverse ++ (upper ++ [other]).reverse := by simp [hsplit]
  have hnames : document.AreNamesOf
      (DependencySearch.cycleNames document (index :: frames.map SearchFrame.index) other)
      (upper ++ [other]).reverse := by
    rw [hsplit]
    refine DependencySearch.areNamesOf_cycleNames hout fun i hi => hvalid.lt_of_mem_way ?_
    change i ∈ index :: frames.map SearchFrame.index
    rw [hsplit]
    grind
  constructor
  case sound =>
    intro names hnames'
    rcases List.mem_append.1 hnames' with hnames' | hnames'
    · exact h.sound names hnames'
    · rw [List.mem_singleton] at hnames'
      subst hnames'
      exact ⟨_, ⟨hvalid.isReferenceCycle hsplit rfl hrefers, lower.reverse,
        hreverse ▸ hfirstWay⟩, hnames⟩
  case complete =>
    intro cycle first last hcycle hfirst hlast hfollowed
    rcases followed_follow.1 hfollowed with hfollowed | ⟨rfl, rfl⟩
    · obtain ⟨names, hmem, hof⟩ := h.complete cycle first last hcycle hfirst hlast hfollowed
      exact ⟨names, List.mem_append_left _ hmem, hof⟩
    · refine ⟨_, List.mem_append_right _ (List.mem_singleton_self _), ?_⟩
      obtain ⟨front, hfront⟩ := hcycle.exists_eq_append hfirstWay (by simp [hlast])
      obtain ⟨tail, rfl⟩ := List.head?_eq_some_iff.1 hfirst
      have hnodup : (front ++ first :: tail).Nodup := hfront ▸ hfirstWay.nodup
      have hsame : front ++ first :: tail = lower.reverse ++ first :: upper.reverse := by
        rw [← hfront, hreverse]
        simp
      obtain ⟨-, -, rfl⟩ := (List.append_cons_inj_of_notMem
        (fun hmem => List.disjoint_of_nodup_append hnodup hmem List.mem_cons_self)
        (List.nodup_cons.1 (List.nodup_append.1 hnodup).2.1).1).1 hsame
      simpa using hnames

end Reference

end SearchStage.RecordsFirst

/-- Every step of the search of a document without duplicate names records the cycles that it
closes. -/
theorem SearchStep.recordsFirst {stage after : SearchStage} (hstep : SearchStep document stage after)
    (hvalid : stage.Valid document) (hremembers : stage.Remembers document)
    (h : stage.RecordsFirst document) : after.RecordsFirst document := by
  cases hstep with
  | start _ _ =>
    exact ⟨h.sound, fun cycle first last hcycle hfirst hlast hfollowed =>
      h.complete cycle first last hcycle hfirst hlast (followed_enter.1 hfollowed)⟩
  | pass _ _ => exact ⟨h.sound, h.complete⟩
  | close href hway => exact h.close hvalid hremembers href hway
  | skip _ hway _ => exact h.follow hvalid hremembers hway
  | enter _ hway _ =>
    have hfollow := h.follow hvalid hremembers hway
    exact ⟨hfollow.sound, fun cycle first last hcycle hfirst hlast hfollowed =>
      hfollow.complete cycle first last hcycle hfirst hlast (followed_enter.1 hfollowed)⟩
  | finish =>
    exact ⟨h.sound, fun cycle first last hcycle hfirst hlast hfollowed =>
      h.complete cycle first last hcycle hfirst hlast (followed_finish.1 hfollowed)⟩

namespace DependencyGraph

/-- The recorded cycles are those at the end of first ways. -/
theorem mem_cycles_iff (hnames : document.names.Nodup) {names : List String} :
    names ∈ (ofDocument document).cycles ↔
      ∃ cycle, document.IsFirstCycle cycle ∧ document.AreNamesOf names cycle := by
  obtain ⟨finished, hvalid, hremembers, h⟩ := SearchStep.invariant document
    (P := fun stage => stage.Valid document ∧ stage.Remembers document ∧
      stage.RecordsFirst document)
    ⟨.initial, .initial, .initial⟩
    fun hstep h => ⟨hstep.valid h.1, hstep.remembers hnames h.1 h.2.1,
      hstep.recordsFirst h.1 h.2.1 h.2.2⟩
  constructor
  · exact h.sound names
  · rintro ⟨cycle, hcycle, hof⟩
    obtain ⟨first, last, hfirst, hlast, hrefers⟩ := hcycle.closes
    have hlt : last < document.declarations.length := by
      obtain ⟨before, hway⟩ := hcycle.way
      exact hway.inside last (List.mem_append_right _ (List.mem_of_getLast? hlast))
    have hfinished := hvalid.started last hlt (isFirst_of_nodup hnames hlt)
    rw [SearchStage.way, List.map_nil, List.append_nil] at hfinished
    obtain ⟨names', hnames', hof'⟩ := h.complete cycle first last hcycle hfirst hlast
      (.inl ⟨hfinished, mem_references.2 hrefers⟩)
    have heq : names = names' := by
      have := hof.symm.trans hof'
      exact (List.map_inj_right fun _ _ => Option.some.inj).1 this
    exact heq ▸ hnames'

theorem mem_circular_iff (hnames : document.names.Nodup) {index : Nat} {declaration : Declaration}
    (hdeclaration : document.declarations[index]? = some declaration) :
    declaration.name ∈ (ofDocument document).circular ↔
      ∃ cycle, document.IsFirstCycle cycle ∧ index ∈ cycle := by
  have hname : document.names[index]? = some declaration.name := by
    simp [Document.names, hdeclaration]
  have hcircular : declaration.name ∈ (ofDocument document).circular ↔
      ∃ names ∈ (ofDocument document).cycles, declaration.name ∈ names :=
    document.cyclesValid_dependencySearch.circular declaration.name
  rw [hcircular]
  constructor
  · rintro ⟨names, hmem, hin⟩
    obtain ⟨cycle, hcycle, hof⟩ := (mem_cycles_iff hnames).1 hmem
    have hin' : some declaration.name ∈ cycle.map (document.names[·]?) :=
      hof ▸ List.mem_map_of_mem hin
    obtain ⟨other, hother, heq⟩ := List.mem_map.1 hin'
    obtain ⟨hlt, -⟩ := List.getElem?_eq_some_iff.1 heq
    obtain rfl := (List.getElem?_inj hlt hnames).1 (heq.trans hname.symm)
    exact ⟨cycle, hcycle, hother⟩
  · rintro ⟨cycle, hcycle, hin⟩
    obtain ⟨before, hway⟩ := hcycle.way
    have hof : document.AreNamesOf (cycle.filterMap (document.names[·]?)) cycle :=
      areNamesOf_filterMap fun i hi => hway.inside i (List.mem_append_right _ hi)
    exact ⟨_, (mem_cycles_iff hnames).2 ⟨cycle, hcycle, hof⟩,
      List.mem_filterMap.2 ⟨index, hin, hname⟩⟩

theorem errorsOf_foldl_reportFor (fault : Fault) (declarations : List Declaration) (log : Log)
    (name : String) :
    (declarations.foldl (fun log declaration => log.reportFor (some declaration.name)
        (fault.located declaration.reference)) log).errorsOf (some name) =
      log.errorsOf (some name) ++ (declarations.filter (·.name = name)).map fun declaration =>
        (fault.located declaration.reference).entry (some name) := by
  induction declarations generalizing log with
  | nil => simp
  | cons declaration declarations ih =>
    rw [List.foldl_cons, ih, Log.errorsOf_reportFor, List.append_assoc]
    by_cases h : declaration.name = name <;> simp [h]

theorem find?_of_nodup (hnames : document.names.Nodup) {declaration : Declaration}
    (hmem : declaration ∈ document.declarations) :
    document.find? declaration.name = some declaration := by
  unfold Document.find? Document.names at *
  generalize document.declarations = declarations at hnames hmem
  induction declarations with
  | nil => cases hmem
  | cons head declarations ih =>
    rw [List.map_cons, List.nodup_cons] at hnames
    rcases List.mem_cons.1 hmem with rfl | hmem
    · simp
    · have hne : head.name ≠ declaration.name := fun heq =>
        hnames.1 (heq ▸ List.mem_map_of_mem hmem)
      rw [List.find?_cons_of_neg (by simpa using hne)]
      exact ih hnames.2 hmem

theorem name_of_find? {name : String} {declaration : Declaration}
    (h : document.find? name = some declaration) : declaration.name = name := by
  simpa using List.find?_some h

theorem filter_filterMap_find? {declaration : Declaration}
    (hfind : document.find? declaration.name = some declaration) {names : List String}
    (hnames : names.Nodup) :
    (names.filterMap document.find?).filter (·.name = declaration.name) =
      if declaration.name ∈ names then [declaration] else [] := by
  induction names with
  | nil => rfl
  | cons name names ih =>
    obtain ⟨hout, htail⟩ := List.nodup_cons.1 hnames
    by_cases hname : name = declaration.name
    · subst hname
      rw [List.filterMap_cons_some hfind, List.filter_cons_of_pos (by simp), ih htail,
        if_neg hout, if_pos List.mem_cons_self]
    · have hmem : declaration.name ∈ name :: names ↔ declaration.name ∈ names := by
        rw [List.mem_cons, or_iff_right (Ne.symm hname)]
      simp only [hmem]
      rw [← ih htail]
      cases hother : document.find? name with
      | none => rw [List.filterMap_cons_none hother]
      | some other =>
        have hdiffer : other.name ≠ declaration.name := name_of_find? hother ▸ hname
        rw [List.filterMap_cons_some hother, List.filter_cons_of_neg (by simpa using hdiffer)]

/-- A declaration on a cycle at the end of a first way gets one error; others get none. -/
theorem reportCircular_errorsOf (hnames : document.names.Nodup) {index : Nat}
    {declaration : Declaration} (hdeclaration : document.declarations[index]? = some declaration)
    (log : Log) :
    ((∃ cycle, document.IsFirstCycle cycle ∧ index ∈ cycle) →
      declaration.name ∈ (ofDocument document).circular ∧
      ((ofDocument document).reportCircular document log).errorsOf (some declaration.name) =
        log.errorsOf (some declaration.name) ++
          [((Fault.circularReference (ofDocument document).circular).located
            declaration.reference).entry (some declaration.name)]) ∧
    ((¬ ∃ cycle, document.IsFirstCycle cycle ∧ index ∈ cycle) →
      declaration.name ∉ (ofDocument document).circular ∧
      ((ofDocument document).reportCircular document log).errorsOf (some declaration.name) =
        log.errorsOf (some declaration.name)) := by
  rw [← mem_circular_iff hnames hdeclaration]
  have hfind := find?_of_nodup hnames (List.mem_of_getElem? hdeclaration)
  unfold reportCircular
  rw [errorsOf_foldl_reportFor]
  have hfilter := filter_filterMap_find? hfind document.cyclesValid_dependencySearch.nodup
  change ((ofDocument document).circular.filterMap _).filter _ =
    if _ ∈ (ofDocument document).circular then _ else _ at hfilter
  constructor
  · intro hmem
    rw [hfilter, if_pos hmem]
    exact ⟨hmem, rfl⟩
  · intro hmem
    rw [hfilter, if_neg hmem]
    exact ⟨hmem, List.append_nil _⟩

/-- Every declaration on a cycle is reported, and once, exactly in those documents where every
declaration on a cycle lies on a cycle at the end of a first way. -/
theorem reportCircular_complete_iff (hnames : document.names.Nodup) (log : Log) :
    (∀ index declaration, document.declarations[index]? = some declaration →
      Relation.TransGen document.Refers index index →
      declaration.name ∈ (ofDocument document).circular ∧
      ((ofDocument document).reportCircular document log).errorsOf (some declaration.name) =
        log.errorsOf (some declaration.name) ++
          [((Fault.circularReference (ofDocument document).circular).located
            declaration.reference).entry (some declaration.name)]) ↔
      ∀ index, Relation.TransGen document.Refers index index →
        ∃ cycle, document.IsFirstCycle cycle ∧ index ∈ cycle := by
  constructor
  · intro hreported index hcycle
    obtain ⟨_, _, hlast⟩ := Relation.TransGen.tail'_iff.1 hcycle
    have hlt := lt_of_mem_references (mem_references.2 hlast)
    have hdeclaration := List.getElem?_eq_getElem hlt
    exact (mem_circular_iff hnames hdeclaration).1 (hreported index _ hdeclaration hcycle).1
  · intro hfirst index declaration hdeclaration hcycle
    exact (reportCircular_errorsOf hnames hdeclaration log).1 (hfirst index hcycle)

end DependencyGraph

/-- A function that only calls others. -/
def Declaration.calling (name : String) (called : List String) : Declaration :=
  .function { FunctionDecl.empty name ⟨name, 1, 1⟩ with
    code := some ⟨⟨name, 2, 1⟩, called.map fun function => .call ⟨0, ⟨name, 3, 1⟩⟩ function []⟩ }

/-- The cycle through `C` is closed by what the search has finished before it gets to `C`. -/
def Document.overlappingCycles : Document where
  declarations := [.calling "A" ["B", "C"], .calling "B" ["A"], .calling "C" ["B"]]

namespace DependencyGraph

theorem reportCircular_complete_iff_overlappingCycles :
    overlappingCycles.names.Nodup ∧
      ((∀ index declaration, overlappingCycles.declarations[index]? = some declaration →
        Relation.TransGen overlappingCycles.Refers index index →
        declaration.name ∈ (ofDocument overlappingCycles).circular ∧
        ((ofDocument overlappingCycles).reportCircular overlappingCycles {}).errorsOf
            (some declaration.name) =
          Log.errorsOf {} (some declaration.name) ++
            [((Fault.circularReference (ofDocument overlappingCycles).circular).located
              declaration.reference).entry (some declaration.name)]) ↔
        ∀ index, Relation.TransGen overlappingCycles.Refers index index →
          ∃ cycle, overlappingCycles.IsFirstCycle cycle ∧ index ∈ cycle) :=
  ⟨by decide, reportCircular_complete_iff (by decide) {}⟩

/-- The third declaration is on a cycle, but neither is its name nor is it reported. -/
theorem reportCircular_incomplete :
    overlappingCycles.names.Nodup ∧
      overlappingCycles.declarations[2]?.map Declaration.name = some "C" ∧
      Relation.TransGen overlappingCycles.Refers 2 2 ∧
      "C" ∉ (ofDocument overlappingCycles).circular ∧
      ((ofDocument overlappingCycles).reportCircular overlappingCycles {}).errorsOf (some "C") =
        [] := by
  have hthrough : 1 ∈ overlappingCycles.references 2 ∧ 0 ∈ overlappingCycles.references 1 ∧
      2 ∈ overlappingCycles.references 0 := by decide +kernel
  refine ⟨by decide, rfl, ?_, by decide +kernel, by decide +kernel⟩
  exact .tail (.tail (.single (mem_references.1 hthrough.1)) (mem_references.1 hthrough.2.1))
    (mem_references.1 hthrough.2.2)

end DependencyGraph

end DecisionLang
