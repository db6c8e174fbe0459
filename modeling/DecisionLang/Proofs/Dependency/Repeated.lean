import DecisionLang.Proofs.Dependency.Around

/-!
# Names that are declared more than once

Declarations of one name and sort count as one for the search, so only the first of them gets
dependencies. A later one depends on nothing, and nothing depends on it: in the order of the graph
it stands right after what the declarations before it reach, wherever its own references lead.

Main statements: `sublist_flatten_indices_iff` for any graph with a rank and
`sorted?_repeated` for documents without cycles.
-/

namespace DecisionLang.DependencyGraph

/-! ### Orders grow at their end -/

theorem prefix_foldl {α β : Type} {step : List α → β → List α} {items : List β}
    (hstep : ∀ done item, done <+: step done item) (done : List α) :
    done <+: items.foldl step done := by
  induction items generalizing done with
  | nil => exact List.prefix_refl done
  | cons item items ih => exact (hstep done item).trans (ih _)

theorem prefix_emit (graph : DependencyGraph) (way : List Nat) (index : Nat) (emitted : List Nat) :
    emitted <+: graph.emit way index emitted := by
  rw [emit]
  split
  · refine List.IsPrefix.trans (prefix_foldl (fun done other => ?_) emitted)
      (List.prefix_append _ _)
    split
    · exact List.prefix_refl done
    · exact prefix_emit graph (index :: way) other done
  · exact List.prefix_refl emitted
termination_by unmet graph.indices way
decreasing_by exact unmet_cons_lt ‹_ ∧ _›.1 ‹_ ∧ _›.2

theorem prefix_flatten_append (graph : DependencyGraph) (roots more : List Nat) :
    graph.flatten roots <+: graph.flatten (roots ++ more) := by
  unfold flatten
  rw [List.foldl_append]
  apply prefix_foldl
  intro done root
  split
  · exact List.prefix_refl done
  · exact prefix_emit graph [] root done

theorem flatten_concat {graph : DependencyGraph} {roots : List Nat} {index : Nat}
    (hindex : index < graph.size) (hnone : graph.dependencies index = [])
    (hnew : index ∉ graph.flatten roots) :
    graph.flatten (roots ++ [index]) = graph.flatten roots ++ [index] := by
  have hemit : graph.flatten (roots ++ [index]) =
      if (graph.flatten roots).contains index then graph.flatten roots
      else graph.emit [] index (graph.flatten roots) := by
    unfold flatten
    rw [List.foldl_append]
    rfl
  rw [hemit, if_neg (mt List.contains_iff_mem.1 hnew), emit,
    dif_pos ⟨List.mem_range.2 hindex, List.not_mem_nil⟩, hnone]
  rfl

/-- In a list without repeats, what comes before an item is what was listed when it came. -/
theorem sublist_iff_mem_of_isPrefix {items before : List Nat} {index other : Nat}
    (hnodup : items.Nodup) (hbefore : before ++ [index] <+: items) :
    [other, index].Sublist items ↔ other ∈ before := by
  obtain ⟨after, rfl⟩ := hbefore
  have hindex : index ∉ before := by
    intro hmem
    have hboth := (List.nodup_append.1 (List.nodup_append.1 hnodup).1).2.2
    exact hboth index hmem index (List.mem_singleton_self index) rfl
  constructor
  · intro hsublist
    have hlt := idxOf_lt_of_sublist hnodup hsublist
    rw [List.append_assoc, List.idxOf_append_of_notMem hindex] at hlt
    by_contra hother
    rw [List.idxOf_append_of_notMem hother, List.singleton_append, List.idxOf_cons_self] at hlt
    omega
  · intro hother
    have hpair : [other, index].Sublist (before ++ [index]) :=
      List.Sublist.append (List.singleton_sublist.2 hother) (List.Sublist.refl [index])
    exact hpair.trans (List.sublist_append_left _ after)

variable {graph : DependencyGraph} {rank : Nat → Nat} {index other : Nat}

/-- A declaration that depends on nothing, and that no earlier one reaches, stands right after what
the earlier ones reach. -/
theorem sublist_flatten_indices_iff (hrank : graph.IsRank rank) (hindex : index < graph.size)
    (hnone : graph.dependencies index = [])
    (hout : ∀ earlier < index, ¬ Relation.ReflTransGen graph.Depends earlier index) :
    [other, index].Sublist (graph.flatten graph.indices) ↔
      ∃ earlier < index, Relation.ReflTransGen graph.Depends earlier other := by
  have hroots : ∀ root ∈ List.range index, root < graph.size := by
    intro root hroot
    exact (List.mem_range.1 hroot).trans hindex
  have hmem {item : Nat} : item ∈ graph.flatten (List.range index) ↔
      ∃ earlier < index, Relation.ReflTransGen graph.Depends earlier item := by
    simp only [mem_flatten_iff hrank hroots, List.mem_range]
  have hnew : index ∉ graph.flatten (List.range index) := by
    rw [hmem]
    rintro ⟨earlier, hearlier, hreach⟩
    exact hout earlier hearlier hreach
  have hbefore : graph.flatten (List.range index) ++ [index] <+: graph.flatten graph.indices := by
    rw [← flatten_concat hindex hnone hnew, ← List.range_succ]
    obtain ⟨count, hcount⟩ := Nat.exists_eq_add_of_lt hindex
    have hindices : graph.indices = List.range (index + 1) ++
        (List.range count).map (index + 1 + ·) := by
      rw [indices, hcount, ← List.range_add]
      congr 1
      omega
    rw [hindices]
    exact prefix_flatten_append graph _ _
  have hnodup : (graph.flatten graph.indices).Nodup :=
    (emission_flatten hrank fun _ => List.mem_range.1).ordered.nodup
  rw [sublist_iff_mem_of_isPrefix hnodup hbefore, hmem]

/-! ### Documents -/

variable {document : Document}

/-- A later declaration of a name and sort has no dependencies. -/
theorem dependencies_of_not_isFirst (hindex : ¬ document.IsFirst index) :
    (ofDocument document).dependencies index = [] := by
  apply List.eq_nil_iff_forall_not_mem.2
  intro other hother
  exact hindex (refers_of_depends hother).1

theorem eq_of_reflTransGen_depends (hindex : ¬ document.IsFirst index)
    (hreach : Relation.ReflTransGen (ofDocument document).Depends other index) : other = index := by
  rcases hreach.cases_tail with heq | ⟨_, _, hlast⟩
  · exact heq.symm
  · have hrefers := (refers_of_depends hlast).2
    exact absurd (Document.isFirst_of_mem_references (Document.mem_references.2 hrefers)) hindex

/-- In a document without cycles, where names may be declared more than once, the dependencies of a
declaration are its references if it is the first of its name and sort, and none otherwise. In the
order of all declarations a first declaration comes after its references, and a later one after
those of them that first declarations before it reach. -/
theorem sorted?_repeated (hend : ∀ index, ¬ Relation.TransGen document.Refers index index) :
    (∀ index other, (ofDocument document).Depends index other ↔
        document.IsFirst index ∧ document.Refers index other) ∧
      ∃ order, (ofDocument document).sorted? = some order ∧
        order.Perm (List.range document.declarations.length) ∧
        ∀ index other, document.Refers index other →
          ([other, index].Sublist order ↔ document.IsFirst index ∨
            ∃ earlier < index, document.IsFirst earlier ∧
              Relation.ReflTransGen document.Refers earlier other) := by
  have hcircular := isCircular_eq_false_iff.2 hend
  obtain ⟨order, hsorted, hperm, hfirsts⟩ := sorted?_ofDocument hcircular
  obtain ⟨rank, hrank⟩ := exists_isRank_ofDocument document
  refine ⟨fun _ _ => depends_iff_refers hend, order, hsorted, hperm, fun index other hrefers => ?_⟩
  by_cases hfirst : document.IsFirst index
  · exact iff_of_true (hfirsts index other hfirst hrefers) (.inl hfirst)
  · have horder : order = (ofDocument document).flatten (ofDocument document).indices := by
      rw [sorted?, if_neg (Bool.eq_false_iff.1 hcircular)] at hsorted
      exact (Option.some.inj hsorted).symm
    have hindex : index < (ofDocument document).size := by
      obtain ⟨_, declaration, _, hdeclaration, _⟩ := hrefers
      obtain ⟨hlt, _⟩ := List.getElem?_eq_some_iff.1 hdeclaration
      simpa [size, ofDocument] using hlt
    have hout : ∀ earlier < index,
        ¬ Relation.ReflTransGen (ofDocument document).Depends earlier index :=
      fun earlier hearlier hreach =>
        Nat.ne_of_lt hearlier (eq_of_reflTransGen_depends hfirst hreach)
    rw [horder, sublist_flatten_indices_iff hrank hindex (dependencies_of_not_isFirst hfirst) hout,
      or_iff_right hfirst]
    have hother := Document.isFirst_of_mem_references (Document.mem_references.2 hrefers)
    refine exists_congr fun earlier => and_congr_right fun _ => ⟨fun hreach => ?_, fun h => ?_⟩
    · have hearlier : document.IsFirst earlier := by
        rcases hreach.cases_head with rfl | ⟨_, hdepends, _⟩
        · exact hother
        · exact (refers_of_depends hdepends).1
      exact ⟨hearlier, (reflTransGen_depends_iff hend hearlier).1 hreach⟩
    · exact (reflTransGen_depends_iff hend h.1).2 h.2

end DependencyGraph

/-- The second declaration of `A` calls a function that is declared after it. -/
def Document.repeatedCaller : Document where
  declarations := [.calling "A" [], .calling "A" ["B"], .calling "B" []]

namespace DependencyGraph

open Document

theorem not_transGen_repeatedCaller :
    ∀ index, ¬ Relation.TransGen repeatedCaller.Refers index index :=
  isCircular_eq_false_iff.1 (by decide +kernel)

theorem sorted?_repeated_repeatedCaller :
    (∀ index, ¬ Relation.TransGen repeatedCaller.Refers index index) ∧
      (∀ index other, (ofDocument repeatedCaller).Depends index other ↔
        repeatedCaller.IsFirst index ∧ repeatedCaller.Refers index other) ∧
      ∃ order, (ofDocument repeatedCaller).sorted? = some order ∧
        order.Perm (List.range repeatedCaller.declarations.length) ∧
        ∀ index other, repeatedCaller.Refers index other →
          ([other, index].Sublist order ↔ repeatedCaller.IsFirst index ∨
            ∃ earlier < index, repeatedCaller.IsFirst earlier ∧
              Relation.ReflTransGen repeatedCaller.Refers earlier other) :=
  ⟨not_transGen_repeatedCaller, sorted?_repeated not_transGen_repeatedCaller⟩

/-- The second declaration refers to the third one, but does not depend on it and comes before it
in the order. -/
theorem not_depends_repeatedCaller :
    (∀ index, ¬ Relation.TransGen repeatedCaller.Refers index index) ∧
      repeatedCaller.Refers 1 2 ∧ ¬ (ofDocument repeatedCaller).Depends 1 2 ∧
      (ofDocument repeatedCaller).sorted? = some [0, 1, 2] ∧ ¬ [2, 1].Sublist [0, 1, 2] := by
  have hrefers : 2 ∈ repeatedCaller.references 1 := by decide +kernel
  have hnone : (ofDocument repeatedCaller).dependencies 1 = [] := by decide +kernel
  refine ⟨not_transGen_repeatedCaller, mem_references.1 hrefers, ?_, by decide +kernel, by decide⟩
  rw [Depends, hnone]
  exact List.not_mem_nil

end DependencyGraph

end DecisionLang
