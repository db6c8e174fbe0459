import DecisionLang.Proofs.Files.SourcePath

/-!
# Normal forms of joined paths

A normal form holds the root at most, then steps up, then names. What a path means is its origin and
its steps; a relative path that is joined to a directory adds its steps to those of the directory, so
it makes no difference whether points in the directory were resolved before. Main statement:
`SourcePath.normalized_idem_direct_join`.
-/

namespace DecisionLang

theorem Text.splitAt_append (separator : Char) (before after : List Char) :
    splitAt separator (before ++ separator :: after) =
      splitAt separator before ++ splitAt separator after := by
  induction before with
  | nil => simp [splitAt]
  | cons c cs ih =>
    rw [List.cons_append, splitAt, splitAt]
    split
    · rw [ih, List.cons_append]
    · obtain ⟨piece, pieces, hpieces⟩ := List.exists_cons_of_ne_nil (splitAt_ne_nil separator cs)
      rw [ih, hpieces, List.cons_append, List.cons_append]

namespace SourcePath

variable {components : List PathComponent} {directory path : SourcePath}

/-! ### Origin and steps -/

def stepsOf (pieces : List String) : List PathComponent :=
  (pieces.filter (!isIdle ·)).map fun piece => if piece == ".." then .parent else .normal piece

theorem stepsOf_append (pieces others : List String) :
    stepsOf (pieces ++ others) = stepsOf pieces ++ stepsOf others := by
  rw [stepsOf, List.filter_append, List.map_append]
  rfl

def pieces (path : SourcePath) : List String :=
  (Text.splitAt '/' path.text.toList).map String.ofList

/-- All that a path says behind its origin. -/
def steps (path : SourcePath) : List PathComponent := stepsOf path.pieces

def origin (path : SourcePath) : List PathComponent := if path.isAbsolute then [.root] else []

/-- A point that starts a path is resolved like one that stands inside it. -/
theorem foldl_components (path : SourcePath) :
    path.components.foldl resolve [] = path.steps.foldl resolve path.origin := by
  rw [components, toPieces, steps, pieces, origin, isAbsolute]
  cases path.text.toList with
  | nil => rfl
  | cons c cs =>
    obtain ⟨piece, pieces, hpieces⟩ :=
      List.exists_cons_of_ne_nil (Text.splitAt_ne_nil '/' cs)
    rw [Text.splitAt]
    by_cases hc : c = '/'
    · subst hc
      rw [if_pos rfl, hpieces]
      rfl
    · rw [if_neg hc, hpieces, if_neg (by simpa using hc)]
      simp only [List.map_cons]
      split
      · next hempty => simp at hempty
      · next hpoint => rw [hpoint]; rfl
      · rfl

/-! ### Joined paths -/

theorem join_of_isAbsolute (h : path.isAbsolute = true) : directory.join path = path := by
  rw [join, if_pos h]

theorem join_of_isEmpty (h : directory.text = "") : directory.join path = path := by
  rw [join]
  split
  · rfl
  · simp [h]

/-- Between a directory and a path stands one slash, which the directory may bring along. -/
theorem exists_text_join (hpath : path.isAbsolute = false) (hne : directory.text ≠ "") :
    ∃ before, (directory.join path).text.toList = before ++ '/' :: path.text.toList ∧
      (directory.text.toList = before ∨ directory.text.toList = before ++ ['/']) := by
  rw [join, if_neg (by simp [hpath])]
  split
  · next h =>
    have hlast : directory.text.toList.getLast? = some '/' := by simpa [hne] using h
    obtain ⟨before, hbefore⟩ := List.getLast?_eq_some_iff.1 hlast
    exact ⟨before, by simp [hbefore], .inr hbefore⟩
  · exact ⟨directory.text.toList, by simp, .inl rfl⟩

theorem steps_join (hpath : path.isAbsolute = false) :
    (directory.join path).steps = directory.steps ++ path.steps := by
  by_cases hempty : directory.text = ""
  · rw [join_of_isEmpty hempty, steps, steps, pieces, pieces, hempty]
    rfl
  · obtain ⟨before, htext, hbefore | hbefore⟩ := exists_text_join hpath hempty
    · rw [steps, steps, steps, pieces, pieces, pieces, htext, hbefore, Text.splitAt_append,
        List.map_append, stepsOf_append]
    · rw [steps, steps, steps, pieces, pieces, pieces, htext, hbefore, Text.splitAt_append,
        Text.splitAt_append, List.map_append, List.map_append, stepsOf_append, stepsOf_append]
      exact congrArg (· ++ _) (List.append_nil _).symm

theorem origin_join (hpath : path.isAbsolute = false) :
    (directory.join path).origin = directory.origin := by
  have habsolute : (directory.join path).isAbsolute = directory.isAbsolute := by
    by_cases hempty : directory.text = ""
    · rw [join_of_isEmpty hempty, hpath, isAbsolute, hempty]
      rfl
    · obtain ⟨before, htext, hbefore⟩ := exists_text_join hpath hempty
      rw [isAbsolute, isAbsolute, htext]
      rcases hbefore with hbefore | hbefore <;> rw [hbefore]
      · cases before with
        | nil => exact absurd (String.toList_eq_nil_iff.1 hbefore) hempty
        | cons => rfl
      · cases before <;> rfl
  rw [origin, origin, habsolute]

/-- A relative path is resolved from where its directory leads. -/
theorem foldl_components_join (hpath : path.isAbsolute = false) :
    (directory.join path).components.foldl resolve [] =
      path.steps.foldl resolve (directory.components.foldl resolve []) := by
  rw [foldl_components, foldl_components, origin_join hpath, steps_join hpath, List.foldl_append]

theorem components_normalized (path : SourcePath) :
    path.normalized.components = path.components.foldl resolve [] :=
  components_ofComponents (isResolved_components path)

theorem normalized_join (directory path : SourcePath) :
    (directory.join path).normalized = (directory.normalized.join path).normalized := by
  cases hpath : path.isAbsolute with
  | true => rw [join_of_isAbsolute hpath, join_of_isAbsolute hpath]
  | false =>
    rw [normalized, normalized, foldl_components_join hpath, foldl_components_join hpath,
      components_normalized, foldl_resolve_foldl rfl]

/-! ### The form of resolved components -/

/-- At most the root, then steps up, then names. -/
inductive IsDirect : List PathComponent → Prop
  | intro {start : List PathComponent} (ups : Nat) (names : List String)
      (hstart : start = [] ∨ start = [.root]) :
      IsDirect (start ++ (List.replicate ups .parent ++ names.map .normal))

theorem IsDirect.resolve (h : IsDirect components) {component : PathComponent}
    (hcomponent : component ≠ .root) : IsDirect (resolve components component) := by
  obtain ⟨ups, names, hstart⟩ := h
  next start =>
  cases component with
  | root => exact absurd rfl hcomponent
  | current => exact .intro ups names hstart
  | normal name =>
    have hresolve : SourcePath.resolve (start ++ (List.replicate ups .parent ++
        names.map .normal)) (.normal name) =
        start ++ (List.replicate ups .parent ++ (names ++ [name]).map .normal) := by
      simp [SourcePath.resolve]
    rw [hresolve]
    exact .intro ups (names ++ [name]) hstart
  | parent =>
    rw [SourcePath.resolve]
    rcases names.eq_nil_or_concat with rfl | ⟨init, last, rfl⟩
    · rw [if_neg, List.map_nil, List.append_nil, List.append_assoc, ← List.replicate_succ']
      · simpa using IsDirect.intro (ups + 1) [] hstart
      · cases ups with
        | zero => rcases hstart with rfl | rfl <;> exact Bool.noConfusion
        | succ ups =>
          rw [List.replicate_succ', List.map_nil, List.append_nil, ← List.append_assoc,
            List.getLast?_concat]
          exact Bool.noConfusion
    · rw [List.concat_eq_append, List.map_append, ← List.append_assoc, ← List.append_assoc,
        List.map_singleton, if_pos (by simp [PathComponent.isNormal]), List.dropLast_concat,
        List.append_assoc]
      exact .intro ups init hstart

theorem isDirect_foldl {steps : List PathComponent} (h : IsDirect components)
    (hsteps : ∀ step ∈ steps, step ≠ .root) : IsDirect (steps.foldl SourcePath.resolve components) := by
  induction steps generalizing components with
  | nil => exact h
  | cons step steps ih =>
    rw [List.forall_mem_cons] at hsteps
    exact ih (h.resolve hsteps.1) hsteps.2

theorem ne_root_of_mem_steps {step : PathComponent} (h : step ∈ path.steps) : step ≠ .root := by
  obtain ⟨piece, _, rfl⟩ := List.mem_map.1 h
  split <;> exact PathComponent.noConfusion

theorem isDirect_normalized (path : SourcePath) : IsDirect path.normalized.components := by
  have horigin : IsDirect path.origin := by
    rw [origin]
    split
    · exact .intro 0 [] (.inr rfl)
    · exact .intro 0 [] (.inl rfl)
  rw [components_normalized, foldl_components]
  exact isDirect_foldl horigin fun step hstep => ne_root_of_mem_steps hstep

theorem IsDirect.current_notMem (h : IsDirect components) : .current ∉ components := by
  obtain ⟨ups, names, rfl | rfl⟩ := h <;> simp

theorem IsDirect.pairwise (h : IsDirect components) :
    components.Pairwise fun first second => first.isNormal = true → second ≠ .parent := by
  obtain ⟨ups, names, hstart⟩ := h
  have hups : (List.replicate ups PathComponent.parent).Pairwise fun first second =>
      first.isNormal = true → second ≠ .parent :=
    List.pairwise_replicate.2 (.inr Bool.noConfusion)
  have hnames : (names.map PathComponent.normal).Pairwise fun first second =>
      first.isNormal = true → second ≠ .parent :=
    List.pairwise_map.2 (List.pairwise_of_forall fun _ _ _ => PathComponent.noConfusion)
  have hsteps := List.pairwise_append.2 ⟨hups, hnames, fun first hfirst second _ hnormal => by
    rw [List.eq_of_mem_replicate hfirst] at hnormal
    cases hnormal⟩
  rcases hstart with rfl | rfl
  · exact hsteps
  · exact List.pairwise_cons.2 ⟨fun _ _ => Bool.noConfusion, hsteps⟩

/-- A normalized path is its own normal form, has no point and no step up behind a name, and leads
a path that is joined to it to the same place as the path that it was made from. -/
theorem normalized_idem_direct_join (path other : SourcePath) :
    path.normalized.normalized = path.normalized ∧
      .current ∉ path.normalized.components ∧
      path.normalized.components.Pairwise
        (fun first second => first.isNormal = true → second ≠ .parent) ∧
      (path.join other).normalized = (path.normalized.join other).normalized :=
  ⟨path.normalized_normalized, path.isDirect_normalized.current_notMem,
    path.isDirect_normalized.pairwise, normalized_join path other⟩

end SourcePath

end DecisionLang
