import DecisionLang.Files.SourcePath

/-!
# Normal forms of paths

The components of a normalized path are the resolved components of the path, so a normalized path
is its own normal form. Main statement: `SourcePath.normalized_normalized`.
-/

namespace DecisionLang

/-- A component that may stand after others: a step up, or a name that is one piece of a text. -/
inductive PathComponent.IsStep : PathComponent → Prop
  | parent : IsStep .parent
  | normal {name : String} (hidle : SourcePath.isIdle name = false) (hup : name ≠ "..")
      (hslash : '/' ∉ name.toList) : IsStep (.normal name)

namespace SourcePath

open PathComponent (IsStep)

/-- Components without points: steps, behind the root if the path is absolute. -/
inductive IsResolved : List PathComponent → Prop
  | intro {start steps : List PathComponent} (hstart : start = [] ∨ start = [.root])
      (hsteps : ∀ step ∈ steps, step.IsStep) : IsResolved (start ++ steps)

variable {components steps : List PathComponent} {component : PathComponent} {path : SourcePath}

/-! ### Components of a text -/

theorem component_of_isStep (h : component.IsStep) :
    (if component.text == ".." then .parent else .normal component.text) = component ∧
      isIdle component.text = false ∧ '/' ∉ component.text.toList := by
  cases h with
  | parent => exact ⟨rfl, by decide, by decide⟩
  | normal hidle hup hslash => exact ⟨by simp [PathComponent.text, hup], hidle, hslash⟩

theorem isStep_of_piece {piece : String} (hidle : isIdle piece = false)
    (hslash : '/' ∉ piece.toList) :
    IsStep (if piece == ".." then .parent else .normal piece) := by
  split
  · exact .parent
  · next hup => exact .normal hidle (by simpa using hup) hslash

/-- Only the first component of a path can be anything else than a step. -/
theorem exists_steps (path : SourcePath) :
    ∃ steps, (∀ step ∈ steps, step.IsStep) ∧
      (path.components = steps ∨ path.components = .root :: steps ∨
        path.components = .current :: steps) := by
  have hsteps {pieces : List String}
      (hpieces : ∀ piece ∈ pieces,
        piece ∈ (Text.splitAt '/' path.text.toList).map String.ofList) :
      ∀ step ∈ (pieces.filter (!isIdle ·)).map fun piece : String =>
        if piece == ".." then PathComponent.parent else .normal piece, step.IsStep := by
    intro step hstep
    obtain ⟨piece, hpiece, rfl⟩ := List.mem_map.1 hstep
    obtain ⟨hmem, hidle⟩ := List.mem_filter.1 hpiece
    obtain ⟨characters, hsplit, rfl⟩ := List.mem_map.1 (hpieces piece hmem)
    refine isStep_of_piece (by simpa using hidle) ?_
    rw [String.toList_ofList]
    exact Text.notMem_of_mem_splitAt hsplit
  unfold components toPieces Pieces.components
  split
  · next hsplit => exact ⟨_, hsteps fun piece hpiece => hsplit ▸ .tail _ hpiece, .inr (.inl rfl)⟩
  · next hsplit => exact ⟨_, hsteps fun piece hpiece => hsplit ▸ .tail _ hpiece, .inr (.inr rfl)⟩
  · exact ⟨_, hsteps fun piece hpiece => hpiece, .inl rfl⟩

theorem components_of_steps (hsteps : ∀ step ∈ steps, step.IsStep) :
    ((steps.map PathComponent.text).filter (!isIdle ·)).map (fun piece =>
      if piece == ".." then PathComponent.parent else .normal piece) = steps := by
  rw [List.filter_eq_self.2, List.map_map]
  · refine (List.map_congr_left fun step hstep => ?_).trans (List.map_id _)
    exact (component_of_isStep (hsteps step hstep)).1
  · intro piece hpiece
    obtain ⟨step, hstep, rfl⟩ := List.mem_map.1 hpiece
    simp [(component_of_isStep (hsteps step hstep)).2.1]

/-- Steps that have been joined with slashes are told apart again. -/
theorem pieces_of_steps (hne : steps ≠ []) (hsteps : ∀ step ∈ steps, step.IsStep) :
    (Text.splitAt '/' ("/".intercalate (steps.map PathComponent.text)).toList).map
      String.ofList = steps.map PathComponent.text := by
  rw [String.toList_intercalate]
  change (Text.splitAt '/' (['/'].intercalate _)).map _ = _
  rw [Text.splitAt_intercalate (by simpa using hne)]
  · simp
  · intro piece hpiece
    obtain ⟨text, htext, rfl⟩ := List.mem_map.1 hpiece
    obtain ⟨step, hstep, rfl⟩ := List.mem_map.1 htext
    exact (component_of_isStep (hsteps step hstep)).2.2

/-- The pieces that steps are written as are found again in the text of their path. -/
theorem toPieces_ofComponents {start : List PathComponent} (hstart : start = [] ∨ start = [.root])
    (hne : steps ≠ []) (hsteps : ∀ step ∈ steps, step.IsStep) :
    (ofComponents (start ++ steps)).toPieces = ⟨start.head?, steps.map PathComponent.text⟩ := by
  have hpieces := pieces_of_steps hne hsteps
  obtain ⟨first, rest, rfl⟩ := List.exists_cons_of_ne_nil hne
  have hfirst := hsteps first List.mem_cons_self
  rcases hstart with rfl | rfl
  · obtain ⟨_, hidle, _⟩ := component_of_isStep hfirst
    have htext : ofComponents ([] ++ first :: rest) =
        ⟨"/".intercalate ((first :: rest).map PathComponent.text)⟩ := by
      cases hfirst <;> rfl
    rw [htext, toPieces, hpieces, List.map_cons]
    split
    · next hempty =>
      rw [(List.cons.inj hempty).1] at hidle
      cases hidle
    · next hpoint =>
      rw [(List.cons.inj hpoint).1] at hidle
      cases hidle
    · rfl
  · have hsplit : (Text.splitAt '/' (ofComponents ([.root] ++ first :: rest)).text.toList).map
        String.ofList = "" :: (first :: rest).map PathComponent.text := by
      rw [List.singleton_append, ofComponents, String.toList_append]
      exact congrArg (List.cons "") hpieces
    rw [toPieces, hsplit]
    rfl

theorem components_ofComponents (h : IsResolved components) :
    (ofComponents components).components = components := by
  obtain ⟨hstart, hsteps⟩ := h
  next start steps =>
  by_cases hne : steps = []
  · rcases hstart with rfl | rfl <;> (rw [hne]; decide)
  · rw [SourcePath.components, toPieces_ofComponents hstart hne hsteps, Pieces.components,
      components_of_steps hsteps]
    rcases hstart with rfl | rfl <;> rfl

/-! ### Resolving components -/

theorem IsResolved.append (h : IsResolved components) (hcomponent : component.IsStep) :
    IsResolved (components ++ [component]) := by
  obtain ⟨hstart, hsteps⟩ := h
  rw [List.append_assoc]
  refine .intro hstart fun step hstep => ?_
  rcases List.mem_append.1 hstep with hold | hnew
  · exact hsteps step hold
  · rwa [List.mem_singleton.1 hnew]

theorem IsResolved.dropLast (h : IsResolved components)
    (hlast : components.getLast?.any PathComponent.isNormal = true) :
    IsResolved components.dropLast := by
  obtain ⟨hstart, hsteps⟩ := h
  next start steps =>
  have hne : steps ≠ [] := by
    rintro rfl
    rcases hstart with rfl | rfl <;> simp [PathComponent.isNormal] at hlast
  rw [List.dropLast_append_of_ne_nil hne]
  exact .intro hstart fun step hstep => hsteps step (List.dropLast_subset steps hstep)

theorem isResolved_resolve (h : IsResolved components)
    (hcomponent : component = .current ∨ component.IsStep) :
    IsResolved (resolve components component) := by
  rcases hcomponent with rfl | hstep
  · exact h
  · cases hstep with
    | parent =>
      rw [resolve]
      split
      · next hlast => exact h.dropLast hlast
      · exact h.append .parent
    | normal hidle hup hslash => exact h.append (.normal hidle hup hslash)

theorem isResolved_foldl (h : IsResolved components) (hsteps : ∀ step ∈ steps, step.IsStep) :
    IsResolved (steps.foldl resolve components) := by
  induction steps generalizing components with
  | nil => exact h
  | cons step steps ih =>
    rw [List.forall_mem_cons] at hsteps
    exact ih (isResolved_resolve h (.inr hsteps.1)) hsteps.2

theorem isResolved_components (path : SourcePath) :
    IsResolved (path.components.foldl resolve []) := by
  have hnothing : IsResolved ([] ++ []) := .intro (.inl rfl) (List.forall_mem_nil _)
  have hroot : IsResolved ([.root] ++ []) := .intro (.inr rfl) (List.forall_mem_nil _)
  obtain ⟨steps, hsteps, hcomponents | hcomponents | hcomponents⟩ := exists_steps path <;>
    rw [hcomponents]
  · exact isResolved_foldl hnothing hsteps
  · rw [List.foldl_cons]
    exact isResolved_foldl hroot hsteps
  · rw [List.foldl_cons]
    exact isResolved_foldl hnothing hsteps

theorem foldl_resolve_resolve (h : components.foldl resolve [] = components)
    (component : PathComponent) :
    (resolve components component).foldl resolve [] = resolve components component := by
  have happend (hlast : resolve components component = components ++ [component]) :
      (components ++ [component]).foldl resolve [] = components ++ [component] := by
    rw [List.foldl_append, h, List.foldl_cons, List.foldl_nil, hlast]
  cases component with
  | root | normal => exact happend rfl
  | current => exact h
  | parent =>
    by_cases hlast : components.getLast?.any PathComponent.isNormal = true
    · have hback : resolve components .parent = components.dropLast := if_pos hlast
      rw [hback]
      rcases components.eq_nil_or_concat with rfl | ⟨init, last, rfl⟩
      · rfl
      · rw [List.concat_eq_append] at h hlast ⊢
        rw [List.getLast?_append, List.getLast?_singleton, Option.some_or, Option.any_some] at hlast
        have hnext : resolve (init.foldl resolve []) last = init.foldl resolve [] ++ [last] := by
          cases last <;> first | rfl | cases hlast
        rw [List.foldl_append, List.foldl_cons, List.foldl_nil, hnext] at h
        rw [List.dropLast_concat]
        exact List.append_cancel_right h
    · have hup : resolve components .parent = components ++ [.parent] := if_neg hlast
      rw [hup]
      exact happend hup

theorem foldl_resolve_foldl (h : components.foldl resolve [] = components) :
    (steps.foldl resolve components).foldl resolve [] = steps.foldl resolve components := by
  induction steps generalizing components with
  | nil => exact h
  | cons step steps ih => exact ih (foldl_resolve_resolve h step)

theorem normalized_normalized (path : SourcePath) :
    path.normalized.normalized = path.normalized := by
  rw [normalized, normalized, components_ofComponents (isResolved_components path),
    foldl_resolve_foldl rfl]

end SourcePath

end DecisionLang
