import DecisionLang.Proofs.Files.SourcePath

/-!
# Normal forms built on the text

Resolving works on components. The same normal form comes about on the text alone, if the components
of a path are joined one after another to an empty path and a step up behind a name gives the parent:
at every moment the text that has been built is the text of the resolved components. Main statement:
`SourcePath.normalized_eq_foldl_advance`.
-/

namespace DecisionLang.SourcePath

open PathComponent (IsStep)

/-- One more component at a path that is built up: it is joined, but a step up behind a name gives
the parent. -/
def advance (built : SourcePath) : PathComponent → SourcePath
  | .current => built
  | .parent =>
    if built.components.getLast?.any PathComponent.isNormal then built.parent?.getD built
    else built.join ⟨PathComponent.parent.text⟩
  | component => built.join ⟨component.text⟩

variable {start steps : List PathComponent} {component : PathComponent}

theorem eq_of_text {first second : SourcePath} (h : first.text = second.text) :
    first = second := by
  cases first
  exact congrArg SourcePath.mk h

theorem forall_isStep_concat : (∀ step ∈ steps ++ [component], step.IsStep) ↔
    (∀ step ∈ steps, step.IsStep) ∧ component.IsStep := by
  simp [or_imp, forall_and]

theorem isIdle_text (h : component.IsStep) : isIdle component.text = false :=
  (component_of_isStep h).2.1

theorem text_pieces (hstart : start = [] ∨ start = [.root])
    (hsteps : ∀ step ∈ steps, step.IsStep) :
    (⟨start.head?, steps.map PathComponent.text⟩ : Pieces).text =
      (ofComponents (start ++ steps)).text := by
  rcases hstart with rfl | rfl
  · cases steps with
    | nil => rfl
    | cons first rest => cases hsteps first List.mem_cons_self <;> rfl
  · rfl

theorem trimmed_pieces (start : Option PathComponent) (hsteps : ∀ step ∈ steps, step.IsStep) :
    (⟨start, steps.map PathComponent.text⟩ : Pieces).trimmed =
      ⟨start, steps.map PathComponent.text⟩ := by
  rw [Pieces.trimmed]
  rcases steps.eq_nil_or_concat with rfl | ⟨init, last, rfl⟩
  · rfl
  · simp [isIdle_text (hsteps last (by simp))]

theorem parent?_ofComponents (hstart : start = [] ∨ start = [.root])
    (hsteps : ∀ step ∈ steps, step.IsStep) (hcomponent : component.IsStep) :
    (ofComponents (start ++ steps ++ [component])).parent? =
      some (ofComponents (start ++ steps)) := by
  have hall := forall_isStep_concat.2 ⟨hsteps, hcomponent⟩
  rw [parent?, List.append_assoc, toPieces_ofComponents hstart (by simp) hall,
    trimmed_pieces _ hall]
  simp only [List.map_append, List.map_singleton, List.dropLast_concat]
  rw [if_neg (by simp), trimmed_pieces _ hsteps, text_pieces hstart hsteps]

theorem isAbsolute_text (h : component.IsStep) : isAbsolute ⟨component.text⟩ = false := by
  refine Bool.eq_false_iff.2 fun habsolute => (component_of_isStep h).2.2 ?_
  exact List.mem_of_head? (by simpa [isAbsolute] using habsolute)

theorem text_ofComponents (hstart : start = [] ∨ start = [.root])
    (hsteps : ∀ step ∈ steps, step.IsStep) :
    (ofComponents (start ++ steps)).text =
      String.join (start.map PathComponent.text) ++
        "/".intercalate (steps.map PathComponent.text) := by
  rcases hstart with rfl | rfl
  · cases steps with
    | nil => rfl
    | cons first rest => cases hsteps first List.mem_cons_self <;> exact (String.empty_append).symm
  · rfl

theorem exists_text_concat (hstart : start = [] ∨ start = [.root])
    (hsteps : ∀ step ∈ steps, step.IsStep) (hcomponent : component.IsStep) :
    ∃ before, (ofComponents (start ++ (steps ++ [component]))).text = before ++ component.text := by
  have hall := forall_isStep_concat.2 ⟨hsteps, hcomponent⟩
  rw [text_ofComponents hstart hall, List.map_append]
  by_cases hne : steps.map PathComponent.text = []
  · exact ⟨_, by rw [hne, List.nil_append, List.map_singleton, String.intercalate_singleton]⟩
  · rw [String.intercalate_append_of_ne_nil hne (by simp), List.map_singleton,
      String.intercalate_singleton, ← String.append_assoc]
    exact ⟨_, rfl⟩

theorem exists_getLast?_ofComponents (hstart : start = [] ∨ start = [.root])
    (hsteps : ∀ step ∈ steps, step.IsStep) (hcomponent : component.IsStep) :
    ∃ last, (ofComponents (start ++ (steps ++ [component]))).text.toList.getLast? = some last ∧
      last ≠ '/' := by
  obtain ⟨_, hidle, hslash⟩ := component_of_isStep hcomponent
  obtain ⟨before, htext⟩ := exists_text_concat hstart hsteps hcomponent
  rw [htext, String.toList_append, List.getLast?_append]
  cases hlast : component.text.toList.getLast? with
  | none =>
    rw [String.toList_eq_nil_iff.1 (List.getLast?_eq_none_iff.1 hlast)] at hidle
    cases hidle
  | some last =>
    refine ⟨last, rfl, ?_⟩
    rintro rfl
    exact hslash (List.mem_of_getLast? hlast)

/-- A step joined to a path of steps is its last step. -/
theorem join_ofComponents (hstart : start = [] ∨ start = [.root])
    (hsteps : ∀ step ∈ steps, step.IsStep) (hcomponent : component.IsStep) :
    (ofComponents (start ++ steps)).join ⟨component.text⟩ =
      ofComponents (start ++ steps ++ [component]) := by
  have hrelative : ¬ isAbsolute ⟨component.text⟩ = true := by simp [isAbsolute_text hcomponent]
  have hall := forall_isStep_concat.2 ⟨hsteps, hcomponent⟩
  have htext := text_ofComponents hstart hall
  rw [List.map_append, List.map_singleton] at htext
  rw [List.append_assoc]
  refine eq_of_text (Eq.trans ?_ htext.symm)
  rcases steps.eq_nil_or_concat with rfl | ⟨init, last, rfl⟩
  · rw [join, if_neg hrelative, if_pos (by rcases hstart with rfl | rfl <;> decide)]
    rcases hstart with rfl | rfl <;> rfl
  · rw [List.concat_eq_append] at hsteps ⊢
    have hinit := forall_isStep_concat.1 hsteps
    obtain ⟨final, hfinal, hslash⟩ := exists_getLast?_ofComponents hstart hinit.1 hinit.2
    have hne : (ofComponents (start ++ (init ++ [last]))).text ≠ "" := by
      rintro hempty
      rw [hempty] at hfinal
      cases hfinal
    rw [String.intercalate_append_of_ne_nil (by simp) (by simp), String.intercalate_singleton,
      ← String.append_assoc, ← String.append_assoc, ← text_ofComponents hstart hsteps,
      join, if_neg hrelative, if_neg (by simp [hfinal, hne, hslash])]

/-- What building makes of one component on the text is what resolving makes of it. -/
theorem advance_ofComponents {resolved : List PathComponent} (h : IsResolved resolved)
    (hcomponent : component = .current ∨ component.IsStep) :
    advance (ofComponents resolved) component = ofComponents (resolve resolved component) := by
  have hread := components_ofComponents h
  have hjoin {step : PathComponent} (hstep : step.IsStep) :
      (ofComponents resolved).join ⟨step.text⟩ = ofComponents (resolved ++ [step]) := by
    obtain ⟨hstart, hsteps⟩ := h
    exact join_ofComponents hstart hsteps hstep
  rcases hcomponent with rfl | hstep
  · rfl
  · cases hstep with
    | normal hidle hup hslash => exact hjoin (.normal hidle hup hslash)
    | parent =>
      rw [advance, resolve, hread]
      split
      · next hlast =>
        obtain ⟨hstart, hsteps⟩ := h
        next start steps =>
        rcases steps.eq_nil_or_concat with rfl | ⟨init, last, rfl⟩
        · rcases hstart with rfl | rfl <;> cases hlast
        · rw [List.concat_eq_append] at hsteps ⊢
          have hinit := forall_isStep_concat.1 hsteps
          rw [← List.append_assoc, parent?_ofComponents hstart hinit.1 hinit.2,
            List.dropLast_concat, Option.getD_some]
      · exact hjoin .parent

/-- A normal form is built from the components of a path one after another. -/
theorem normalized_eq_foldl_advance (path : SourcePath) :
    path.normalized = path.components.foldl advance ⟨""⟩ := by
  have hfold {resolved steps : List PathComponent} (h : IsResolved resolved)
      (hsteps : ∀ step ∈ steps, step.IsStep) :
      steps.foldl advance (ofComponents resolved) = ofComponents (steps.foldl resolve resolved) := by
    induction steps generalizing resolved with
    | nil => rfl
    | cons step steps ih =>
      rw [List.forall_mem_cons] at hsteps
      rw [List.foldl_cons, advance_ofComponents h (.inr hsteps.1),
        ih (isResolved_resolve h (.inr hsteps.1)) hsteps.2, List.foldl_cons]
  have hnothing : IsResolved ([] ++ []) := .intro (.inl rfl) (List.forall_mem_nil _)
  have hroot : IsResolved ([.root] ++ []) := .intro (.inr rfl) (List.forall_mem_nil _)
  rw [normalized]
  obtain ⟨steps, hsteps, hcomponents | hcomponents | hcomponents⟩ := exists_steps path <;>
    rw [hcomponents]
  · exact (hfold hnothing hsteps).symm
  · exact (hfold hroot hsteps).symm
  · exact (hfold hnothing hsteps).symm

end DecisionLang.SourcePath
