import DecisionLang.Proofs.Dependency.Cycles

/-!
# First ways

The search reaches a declaration by the first of all ways to it: no other way to it, wherever it
starts, leaves this one for something that the source mentions earlier. So the cycles that the
search records do not depend on the search but on first ways alone: they are the ends of first ways
that are closed by a reference. A cycle whose declarations are reached in another order is not seen.

Main statements: `SearchStage.Valid.isFirstWay`, `IsFirstWay.unique` and `mem_cycles_iff`.
-/

namespace DecisionLang

namespace Document

/-- A way along references that meets no declaration twice. -/
structure IsWay (document : Document) (way : List Nat) : Prop where
  inside : ∀ index ∈ way, index < document.declarations.length
  nodup : way.Nodup
  chain : way.IsChain document.Refers

/-- Where a way can start or go on, in the order of the source. -/
def continuations (document : Document) (way : List Nat) : List Nat :=
  way.getLast?.elim (List.range document.declarations.length) document.references

/-- A way that other ways to its end leave only for what the source mentions later. -/
structure IsFirstWay (document : Document) (way : List Nat) : Prop extends
    document.IsWay way where
  first : ∀ other, document.IsWay other → other.getLast? = way.getLast? →
    ∀ common index index' rest rest', way = common ++ index :: rest →
      other = common ++ index' :: rest' → index ≠ index' →
      (document.continuations common).idxOf index < (document.continuations common).idxOf index'

/-- A cycle that is the end of a first way. -/
structure IsFirstCycle (document : Document) (cycle : List Nat) : Prop extends
    document.IsReferenceCycle cycle where
  way : ∃ before, document.IsFirstWay (before ++ cycle)

variable {document : Document}

theorem IsWay.mem_continuations {common rest : List Nat} {index : Nat}
    (h : document.IsWay (common ++ index :: rest)) : index ∈ document.continuations common := by
  unfold continuations
  rcases List.eq_nil_or_concat' common with rfl | ⟨front, last, rfl⟩
  · exact List.mem_range.2 (h.inside index (by simp))
  · rw [List.getLast?_concat]
    have hchain : (front ++ [last, index] ++ rest).IsChain document.Refers := by
      simpa using h.chain
    exact mem_references.2 (List.isChain_pair.1 hchain.left_of_append.right_of_append)

theorem exists_divergence : ∀ {way other : List Nat}, ¬ way <+: other → ¬ other <+: way →
    ∃ common index index' rest rest', way = common ++ index :: rest ∧
      other = common ++ index' :: rest' ∧ index ≠ index'
  | [], _, h, _ => absurd List.nil_prefix h
  | _ :: _, [], _, h => absurd List.nil_prefix h
  | index :: way, index' :: other, h, h' => by
    by_cases heq : index = index'
    · subst heq
      rw [List.cons_prefix_cons, and_iff_right rfl] at h h'
      obtain ⟨common, i, j, rest, rest', hway, hother, hne⟩ := exists_divergence h h'
      exact ⟨index :: common, i, j, rest, rest', by simp [hway], by simp [hother], hne⟩
    · exact ⟨[], index, index', way, other, rfl, rfl, heq⟩

/-- A way without repeats ends where it is left, so another one to its end does not continue it. -/
theorem eq_of_isPrefix {way other : List Nat} (hextends : way <+: other) (hnodup : other.Nodup)
    (hlast : way.getLast? = other.getLast?) : way = other := by
  obtain ⟨rest, rfl⟩ := hextends
  rcases List.eq_nil_or_concat' rest with rfl | ⟨front, last, rfl⟩
  · rw [List.append_nil]
  · rw [← List.append_assoc, List.getLast?_concat] at hlast
    have hmem := List.mem_of_getLast? hlast
    exact absurd (List.disjoint_of_nodup_append hnodup hmem (by simp)) id

theorem IsFirstWay.unique {way other : List Nat} (h : document.IsFirstWay way)
    (hother : document.IsFirstWay other) (hlast : way.getLast? = other.getLast?) :
    way = other := by
  by_contra hne
  have hextends : ¬ way <+: other := fun hextends =>
    hne (eq_of_isPrefix hextends hother.nodup hlast)
  have hextends' : ¬ other <+: way := fun hextends =>
    hne (eq_of_isPrefix hextends h.nodup hlast.symm).symm
  obtain ⟨common, index, index', rest, rest', rfl, rfl, hdiffer⟩ :=
    exists_divergence hextends hextends'
  have hlt := h.first _ hother.toIsWay hlast.symm common index index' rest rest' rfl rfl hdiffer
  have hgt := hother.first _ h.toIsWay hlast common index' index rest' rest rfl rfl hdiffer.symm
  exact Nat.lt_asymm hlt hgt

end Document

open Document SearchStage

/-- What is known of the declarations on a way from when they were entered: the finished ones led
nowhere but to finished ones and to the way, and so did whatever could have been entered earlier. -/
inductive SearchFrame.Entered (document : Document) : List SearchFrame → Prop
  | nil : Entered document []
  | cons {frame : SearchFrame} {below : List SearchFrame} (h : Entered document below)
      (hclosed : ∀ index ∈ frame.before, ∀ other ∈ document.references index,
        other ∈ frame.before ∨ other ∈ below.map SearchFrame.index)
      (hearlier : ∀ other ∈ document.continuations (below.map SearchFrame.index).reverse,
        (document.continuations (below.map SearchFrame.index).reverse).idxOf other <
          (document.continuations (below.map SearchFrame.index).reverse).idxOf frame.index →
        other ∈ frame.before ∨ other ∈ below.map SearchFrame.index) :
      Entered document (frame :: below)

/-- What a search remembers of what it has met. -/
structure SearchStage.Remembers (document : Document) (stage : SearchStage) : Prop where
  met : ∀ index other, stage.Followed document index other → other ∈ stage.finished ++ stage.way
  kept : ∀ frame ∈ stage.frames, frame.before ⊆ stage.finished
  entered : SearchFrame.Entered document stage.frames

namespace SearchFrame.Entered

variable {document : Document}

theorem of_append {upper below : List SearchFrame}
    (h : Entered document (upper ++ below)) : Entered document below := by
  induction upper with
  | nil => exact h
  | cons frame upper ih =>
    cases h with
    | cons h _ _ => exact ih h

/-- The references followed since do not matter. -/
theorem follow {index : Nat} {seen seen' before : List Nat} {below : List SearchFrame}
    (h : Entered document (⟨index, seen, before⟩ :: below)) :
    Entered document (⟨index, seen', before⟩ :: below) := by
  cases h with
  | cons h hclosed hearlier => exact .cons h hclosed hearlier

end SearchFrame.Entered

namespace SearchStage.Valid

variable {document : Document} {stage : SearchStage}

/-- A way that avoids another one cannot leave what leads only to itself and the other one. -/
theorem subset_of_closed {before way : List Nat}
    (hclosed : ∀ index ∈ before, ∀ other ∈ document.references index,
      other ∈ before ∨ other ∈ way) :
    ∀ {index : Nat} {rest : List Nat}, (index :: rest).IsChain document.Refers →
      (∀ other ∈ rest, other ∉ way) → index ∈ before → ∀ other ∈ index :: rest, other ∈ before
  | index, [], _, _, hindex, other, hother => List.mem_singleton.1 hother ▸ hindex
  | index, next :: rest, hchain, havoids, hindex, other, hother => by
    obtain ⟨hrefers, hchain⟩ := List.isChain_cons_cons.1 hchain
    have hnext : next ∈ before :=
      (hclosed index hindex next (mem_references.2 hrefers)).resolve_right
        (havoids next List.mem_cons_self)
    rcases List.mem_cons.1 hother with rfl | hother
    · exact hindex
    · exact subset_of_closed hclosed hchain
        (fun other hother => havoids other (List.mem_cons_of_mem _ hother)) hnext other hother

theorem isWay (h : stage.Valid document) : document.IsWay stage.way.reverse where
  inside _ hindex := h.lt_of_mem_way (List.mem_reverse.1 hindex)
  nodup := List.nodup_reverse.2 (List.nodup_append.1 h.nodup).2.1
  chain := List.isChain_reverse.2 h.isChain_way

/-- The way of a search is the first one to its end. -/
theorem isFirstWay (h : stage.Valid document) (hremembers : stage.Remembers document) :
    document.IsFirstWay stage.way.reverse := by
  refine ⟨h.isWay, ?_⟩
  intro other hother hlast common index index' rest rest' hway hsplit hne
  have hframes : stage.frames.map SearchFrame.index =
      rest.reverse ++ index :: common.reverse := by
    have := congrArg List.reverse hway
    simpa [SearchStage.way] using this
  obtain ⟨upper, lower, hlower, -, hmap⟩ := List.map_eq_append_iff.1 hframes
  obtain ⟨frame, below, rfl, rfl, hbelow⟩ := List.map_eq_cons_iff.1 hmap
  have hentered : SearchFrame.Entered document (frame :: below) :=
    (hlower ▸ hremembers.entered).of_append
  cases hentered with
  | cons _ hclosed hearlier =>
    rw [hbelow] at hclosed hearlier
    rw [List.reverse_reverse] at hearlier
    subst hsplit
    by_contra hle
    have hmem := hother.mem_continuations
    have hlt : (document.continuations common).idxOf index' <
        (document.continuations common).idxOf frame.index := by
      refine Nat.lt_of_le_of_ne (Nat.le_of_not_lt hle) fun heq => hne ?_
      exact ((List.idxOf_inj hmem).1 heq).symm
    have hout : ∀ i ∈ index' :: rest', i ∉ common.reverse := fun i hi hcommon =>
      List.disjoint_of_nodup_append hother.nodup (List.mem_reverse.1 hcommon) hi
    have hbefore : index' ∈ frame.before :=
      (hearlier index' hmem hlt).resolve_right (hout index' List.mem_cons_self)
    have hsubset := subset_of_closed hclosed hother.chain.right_of_append
      (fun i hi => hout i (List.mem_cons_of_mem _ hi)) hbefore
    obtain ⟨last, hlast'⟩ : ∃ last, (index' :: rest').getLast? = some last :=
      ⟨_, List.getLast?_eq_some_getLast (List.cons_ne_nil _ _)⟩
    have hfinished : last ∈ stage.finished := by
      have hframe : frame ∈ stage.frames := by simp [hlower]
      exact hremembers.kept frame hframe (hsubset last (List.mem_of_getLast? hlast'))
    have hend : last ∈ stage.way := by
      rw [List.getLast?_append, hlast', Option.some_or] at hlast
      exact List.mem_reverse.1 (List.mem_of_getLast? hlast.symm)
    exact List.disjoint_of_nodup_append h.nodup hfinished hend

end SearchStage.Valid

theorem idxOf_range {index count : Nat} (hlt : index < count) :
    (List.range count).idxOf index = index := by
  have := List.nodup_range.idxOf_getElem index (by simpa using hlt)
  rwa [List.getElem_range] at this

theorem mem_of_idxOf_lt {items rest : List Nat} {item other : Nat}
    (hlt : (items ++ item :: rest).idxOf other < (items ++ item :: rest).idxOf item) :
    other ∈ items := by
  by_contra hout
  by_cases hitem : item ∈ items
  · rw [List.idxOf_append_of_mem hitem, List.idxOf_append_of_notMem hout] at hlt
    have := List.idxOf_lt_length_of_mem hitem
    omega
  · rw [List.idxOf_append_of_notMem hitem, List.idxOf_cons_self] at hlt
    rw [List.idxOf_append_of_notMem hout] at hlt
    omega

namespace SearchStage.Remembers

variable {document : Document} {stage : SearchStage} {next index other : Nat}
  {finished seen before rest : List Nat} {frames : List SearchFrame}
  {search search' : DependencySearch}

theorem initial : SearchStage.initial.Remembers document := by
  constructor
  case met => simp [SearchStage.initial, Followed]
  case kept => simp [SearchStage.initial]
  case entered => exact .nil

/-- What was finished leads only to what is finished and to the way. -/
theorem closed (h : stage.Remembers document) : ∀ i ∈ stage.finished,
    ∀ j ∈ document.references i, j ∈ stage.finished ∨ j ∈ stage.way :=
  fun i hi j hj => List.mem_append.1 (h.met i j (.inl ⟨hi, hj⟩))

theorem start (hnames : document.names.Nodup)
    (hvalid : SearchStage.Valid document ⟨[], next, finished, search⟩)
    (h : SearchStage.Remembers document ⟨[], next, finished, search⟩)
    (hlt : next < document.declarations.length) :
    SearchStage.Remembers document ⟨[⟨next, [], finished⟩], next + 1, finished, search⟩ := by
  constructor
  case met =>
    intro i j hfollowed
    have hmem : j ∈ finished ++ [] := h.met i j (followed_enter.1 hfollowed)
    rw [List.append_nil] at hmem
    exact List.mem_append_left _ hmem
  case kept => simp
  case entered =>
    refine .cons h.entered h.closed fun other hother hless => .inl ?_
    simp only [continuations, List.map_nil, List.reverse_nil, List.getLast?_nil,
      Option.elim_none] at hother hless
    rw [idxOf_range (List.mem_range.1 hother), idxOf_range hlt] at hless
    have hfirst := isFirst_of_nodup hnames (List.mem_range.1 hother)
    simpa [way] using hvalid.started other hless hfirst

theorem follow
    (h : SearchStage.Remembers document ⟨⟨index, seen, before⟩ :: frames, next, finished, search⟩)
    (hother : other ∈ finished ++ index :: frames.map SearchFrame.index) :
    SearchStage.Remembers document
      ⟨⟨index, seen ++ [other], before⟩ :: frames, next, finished, search'⟩ := by
  constructor
  case met =>
    intro i j hfollowed
    rcases followed_follow.1 hfollowed with hfollowed | ⟨rfl, rfl⟩
    · exact h.met i j hfollowed
    · exact hother
  case kept => simpa using h.kept
  case entered => exact h.entered.follow

theorem enter
    (h : SearchStage.Remembers document ⟨⟨index, seen, before⟩ :: frames, next, finished, search⟩)
    (href : document.references index = seen ++ other :: rest) :
    SearchStage.Remembers document ⟨⟨other, [], finished⟩ ::
      ⟨index, seen ++ [other], before⟩ :: frames, next, finished, search'⟩ := by
  constructor
  case met =>
    intro i j hfollowed
    have hfollowed' : Followed document ⟨⟨index, seen ++ [other], before⟩ :: frames, next,
      finished, search⟩ i j := followed_enter.1 hfollowed
    rcases followed_follow.1 hfollowed' with hfollowed | ⟨rfl, rfl⟩
    · have := h.met i j hfollowed
      simp only [way, List.map_cons, List.mem_append, List.mem_cons] at this ⊢
      tauto
    · simp [way]
  case kept => simpa using h.kept
  case entered =>
    refine .cons h.entered.follow h.closed fun j _ hless => ?_
    have hcontinuations : document.continuations
        ((⟨index, seen ++ [other], before⟩ :: frames).map SearchFrame.index).reverse =
          seen ++ other :: rest := by
      simp [continuations, href]
    rw [hcontinuations] at hless
    have hseen := mem_of_idxOf_lt hless
    exact List.mem_append.1 (h.met index j (.inr ⟨_, List.mem_cons_self, rfl, hseen⟩))

theorem finish
    (h : SearchStage.Remembers document
      ⟨⟨index, document.references index, before⟩ :: frames, next, finished, search⟩) :
    SearchStage.Remembers document ⟨frames, next, finished ++ [index], search'⟩ := by
  have horder : finished ++ [index] ++ frames.map SearchFrame.index =
      finished ++ index :: frames.map SearchFrame.index := by simp
  constructor
  case met => exact fun i j hfollowed => horder ▸ h.met i j (followed_finish.1 hfollowed)
  case kept =>
    exact fun frame hframe => List.Subset.trans (h.kept frame (List.mem_cons_of_mem _ hframe))
      (List.subset_append_left _ _)
  case entered =>
    cases h.entered with
    | cons hentered _ _ => exact hentered

end SearchStage.Remembers

theorem SearchStep.remembers {document : Document} {stage after : SearchStage}
    (hnames : document.names.Nodup) (hstep : SearchStep document stage after)
    (hvalid : stage.Valid document) (h : stage.Remembers document) :
    after.Remembers document := by
  cases hstep with
  | start hlt _ => exact .start hnames hvalid h hlt
  | pass _ _ => exact ⟨h.met, h.kept, h.entered⟩
  | close _ hway => exact h.follow (List.mem_append_right _ hway)
  | skip href _ hold =>
    exact h.follow (List.mem_append_left _ (hvalid.mem_finished_of_skip href hold))
  | enter href _ _ => exact h.enter href
  | finish => exact h.finish

end DecisionLang
