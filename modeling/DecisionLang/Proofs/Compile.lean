import DecisionLang.Compile
import DecisionLang.Proofs.Checking.Declaration
import DecisionLang.Proofs.Dependency.FirstCycle
import DecisionLang.Proofs.Dependency.Ordering
import DecisionLang.Proofs.Reading.Coherence

/-!
# Documents that compile

Whatever is compiled was read by a run of steps, so what holds of all readings holds of it. If no
errors were logged, names of declarations are distinct and there are no cycles, so declarations
come in an order. Main statement: `Dialect.Compiles.exists_order`.
-/

namespace DecisionLang

/-- The results of compiling lines, with or without the files they include, or a file. -/
inductive Dialect.Compiles (dialect : Dialect) (options : CompileOptions) (compiled : Compiled) :
    Prop
  | lines (file : String) (lines : List String)
      (h : dialect.compileLines options file lines = .ok compiled)
  | including (files : FileSystem) (file : String) (lines : List String)
      (h : dialect.compileIncluding options files file lines = .ok compiled)
  | named (files : FileSystem) (file : String)
      (h : dialect.compileNamed options files file = .ok compiled)

theorem Document.indexOf?_of_nodup {document : Document} (hnames : document.names.Nodup)
    {index : Nat} {declaration : Declaration}
    (h : document.declarations[index]? = some declaration) :
    document.indexOf? declaration.name = some index := by
  obtain ⟨hlt, rfl⟩ := List.getElem?_eq_some_iff.1 h
  refine List.findIdx?_eq_some_iff_getElem.2 ⟨hlt, beq_self_eq_true _, fun earlier hearlier => ?_⟩
  have hdiffer : document.names[earlier]? ≠ document.names[index]? := fun heq =>
    Nat.ne_of_lt hearlier ((List.getElem?_inj (by simpa [names] using hearlier.trans hlt)
      hnames).1 heq)
  simpa [names, List.getElem?_eq_getElem hlt, List.getElem?_eq_getElem (hearlier.trans hlt)] using
    hdiffer

/-! ### Logs of cycles -/

namespace DependencyGraph

variable {document : Document}

theorem continues_reportCircular (graph : DependencyGraph) (document : Document) (log : Log) :
    log.Continues (graph.reportCircular document log) :=
  .foldl (fun _ _ => .reportFor _ _ _) _ _

theorem hasErrors_reportCircular (hcircular : (ofDocument document).isCircular = true)
    (hnames : document.names.Nodup) (log : Log) :
    ((ofDocument document).reportCircular document log).hasErrors = true := by
  obtain ⟨names, hmem⟩ := List.exists_mem_of_ne_nil _ (isCircular_iff_cycles_ne_nil.1 hcircular)
  obtain ⟨cycle, hcycle, hof⟩ := exists_isReferenceCycle_of_mem_cycles hmem
  have hlength : cycle.length = names.length := by simpa using congrArg List.length hof
  have htwo := hcycle.two_le
  obtain ⟨name, hname⟩ := List.exists_mem_of_length_pos (l := names) (by omega)
  obtain ⟨index, _, hindex⟩ := List.mem_map.1 (hof ▸ List.mem_map_of_mem (f := some) hname)
  obtain ⟨declaration, hdeclaration, rfl⟩ := List.mem_map.1 (List.mem_of_getElem? hindex)
  have hcircular : declaration.name ∈ (ofDocument document).circular :=
    (document.cyclesValid_dependencySearch.circular _).2 ⟨names, hmem, hname⟩
  have hfound := find?_of_nodup hnames hdeclaration
  refine Log.hasErrors_foldl (fun _ _ => .reportFor _ _ _) (fun _ _ => by simp [Log.hasErrors]) ?_ log
  exact List.ne_nil_of_mem (List.mem_filterMap.2 ⟨_, hcircular, hfound⟩)

end DependencyGraph

namespace Compiled

variable {rules : OperatorRules} {checks : Bool} {progress : Progress}

theorem continues_ofProgress :
    (DependencyGraph.reportCircular (.ofDocument progress.document) progress.document
      progress.log).Continues (ofProgress rules checks progress).log := by
  cases checks with
  | false => exact .refl _
  | true =>
    have hroots := @Check.sound_roots ⟨progress.document, rules⟩
      (DependencyGraph.ofDocument progress.document).checkOrder
    exact hroots.continues { log := _ }

/-- A document without errors was read without errors. -/
theorem hasErrors_read (herrors : (ofProgress rules checks progress).log.hasErrors = false) :
    progress.log.hasErrors = false := by
  have hcycles := continues_ofProgress.hasErrors_eq_false herrors
  exact (DependencyGraph.continues_reportCircular _ _ _).hasErrors_eq_false hcycles

theorem nodup_names {grammar : Grammar} (hreads : Progress.Reads grammar {} progress)
    (herrors : (ofProgress rules checks progress).log.hasErrors = false) :
    progress.document.names.Nodup ∧
      (DependencyGraph.ofDocument progress.document).isCircular = false := by
  have hcycles := continues_ofProgress.hasErrors_eq_false herrors
  have hread := hasErrors_read herrors
  have hnames : progress.document.names.Nodup := by
    rcases (hreads.coherent Progress.coherent_start).names with hnames | hread'
    · exact hnames
    · exact absurd hread (by rw [hread']; nofun)
  refine ⟨hnames, Bool.eq_false_iff.2 fun hcircular => ?_⟩
  rw [DependencyGraph.hasErrors_reportCircular hcircular hnames] at hcycles
  cases hcycles

/-- The declarations of a document without errors come in an order in which each one is listed once
and after the others whose names occur in it. -/
theorem exists_sorted {grammar : Grammar} (hreads : Progress.Reads grammar {} progress)
    (herrors : (ofProgress rules checks progress).log.hasErrors = false) :
    ∃ order, (DependencyGraph.ofDocument progress.document).sorted? = some order ∧
      order.Perm (List.range progress.document.declarations.length) ∧
      ∀ index other declaration dependency,
        progress.document.declarations[index]? = some declaration →
        progress.document.declarations[other]? = some dependency → other ≠ index →
        dependency.name ∈ declaration.referredNames → order.idxOf other < order.idxOf index := by
  obtain ⟨hnames, hcircular⟩ := nodup_names hreads herrors
  obtain ⟨order, hsorted, hperm, hrefers⟩ := DependencyGraph.sorted?_ofDocument hcircular
  refine ⟨order, hsorted, hperm, ?_⟩
  intro index other declaration dependency hindex hother hne hname
  have hnodup := hperm.nodup_iff.2 List.nodup_range
  obtain ⟨hlt, _⟩ := List.getElem?_eq_some_iff.1 hindex
  apply DependencyGraph.idxOf_lt_of_sublist hnodup
  refine hrefers index other (Document.isFirst_of_nodup hnames hlt)
    ⟨hne, declaration, _, hindex, hname, ?_⟩
  exact Document.indexOf?_of_nodup hnames hother

theorem failure?_eq_none {compiled : Compiled} {file : String} (h : compiled.failure? file = none) :
    compiled.log.hasErrors = false := by
  unfold failure? at h
  by_contra herrors
  simp only [eq_true_of_ne_false herrors, Bool.not_true, Bool.false_eq_true, if_false] at h
  repeat' split at h
  all_goals cases h

end Compiled

namespace Dialect

variable {dialect : Dialect} {options : CompileOptions} {compiled : Compiled}

theorem compileLines_eq_ok {file : String} {lines : List String}
    (h : (dialect.compileLines options file lines).toOption = some compiled) :
    dialect.compileLines options file lines = .ok compiled := by
  cases hcompile : dialect.compileLines options file lines <;> simp_all [Except.toOption]

/-- What is compiled was read before, and without errors unless they are tolerated. -/
theorem Compiles.exists_reads (h : dialect.Compiles options compiled) :
    ∃ progress, Progress.Reads dialect.grammar {} progress ∧
      compiled = .ofProgress dialect.rules options.checks progress ∧
      (options.tolerant = false → compiled.log.hasErrors = false) := by
  have hcompile {progress : Progress} {file : String}
      (hreads : Progress.Reads dialect.grammar {} progress)
      (h : progress.compile dialect options file = .ok compiled) :
      ∃ progress, Progress.Reads dialect.grammar {} progress ∧
        compiled = .ofProgress dialect.rules options.checks progress ∧
        (options.tolerant = false → compiled.log.hasErrors = false) := by
    unfold Progress.compile at h
    dsimp only at h
    split at h
    · split at h
      · next htolerant =>
        cases h
        exact ⟨progress, hreads, rfl, fun hstrict => by simp [hstrict] at htolerant⟩
      · cases h
    · next hnone =>
      cases h
      exact ⟨progress, hreads, rfl, fun _ => Compiled.failure?_eq_none hnone⟩
  cases h with
  | lines file lines h => exact hcompile (Progress.reads_readSource _ _ _ _) h
  | including files file lines h => exact hcompile (Progress.reads_readIncluding _ _ _ _ _) h
  | named files file h =>
    unfold compileNamed at h
    split at h
    · exact hcompile (Progress.reads_readIncluding _ _ _ _ _) h
    · cases h

theorem Compiles.allWellFormed (h : dialect.Compiles options compiled) :
    ∀ item ∈ compiled.document.declarations, (Node.ofDeclaration item).AllWellFormed := by
  obtain ⟨progress, hreads, rfl, _⟩ := h.exists_reads
  exact (hreads.coherent Progress.coherent_start).wellFormed

/-- Without errors, names of declarations are distinct, and all declarations come in an order in
which each one is listed once and after the others whose names occur in it. -/
theorem Compiles.exists_order (h : dialect.Compiles options compiled)
    (hstrict : options.tolerant = false) :
    compiled.log.errors = [] ∧ compiled.document.names.Nodup ∧
      ∃ order, compiled.graph.sorted? = some order ∧
        order.Perm (List.range compiled.document.declarations.length) ∧
        ∀ index other declaration dependency,
          compiled.document.declarations[index]? = some declaration →
          compiled.document.declarations[other]? = some dependency → other ≠ index →
          dependency.name ∈ declaration.referredNames →
          order.idxOf other < order.idxOf index := by
  obtain ⟨progress, hreads, rfl, herrors⟩ := h.exists_reads
  have herrors := herrors hstrict
  exact ⟨Log.hasErrors_eq_false_iff.1 herrors, (Compiled.nodup_names hreads herrors).1,
    Compiled.exists_sorted hreads herrors⟩

/-- A function that is declared before the one it calls. -/
def forwardCall : List String :=
  ["function Outer", "  code", "    Inner()", "function Inner", "  code", "    number X = 1"]

theorem exists_order_forwardCall :
    ∃ compiled, ({} : Dialect).compileLines {} "calls" forwardCall = .ok compiled ∧
      ({} : CompileOptions).tolerant = false ∧
      compiled.log.errors = [] ∧ compiled.document.names.Nodup ∧
        ∃ order, compiled.graph.sorted? = some order ∧
          order.Perm (List.range compiled.document.declarations.length) ∧
          ∀ index other declaration dependency,
            compiled.document.declarations[index]? = some declaration →
            compiled.document.declarations[other]? = some dependency → other ≠ index →
            dependency.name ∈ declaration.referredNames →
            order.idxOf other < order.idxOf index := by
  have hok : (({} : Dialect).compileLines {} "calls" forwardCall).toOption.isSome = true := by
    decide +kernel
  obtain ⟨compiled, hcompile⟩ := Option.isSome_iff_exists.1 hok
  have hcompile := compileLines_eq_ok hcompile
  exact ⟨compiled, hcompile, rfl, Compiles.exists_order (.lines _ _ hcompile) rfl⟩

end Dialect

end DecisionLang
