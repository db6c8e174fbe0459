import DecisionLang.Proofs.Compile

/-!
# Expectations that are met

A scenario is matched if it expects errors and each fragment of its expectations occurs in a logged
error. A block of expected errors can stand without any message below it. Such a block is met by
every log, so it is the messages, not the blocks, that make sure that something failed. Main
statement: `ScenarioDecl.exists_expected_iff`.
-/

namespace DecisionLang

namespace ExpectedErrors

variable {block : ExpectedErrors} {scenario : String} {log : Log}

/-- An error in the log that the block is about, with the fragment in its message. -/
def Expects (block : ExpectedErrors) (scenario : String) (fragment : String) (entry : LogEntry) :
    Prop :=
  block.kind.covers scenario entry = true ∧ fragment.toList <:+: entry.message.toList

theorem isMet_iff {fragment : String} :
    block.isMet scenario log fragment = true ↔
      ∃ entry ∈ log.errors, block.Expects scenario fragment entry := by
  unfold isMet Expects
  simp only [List.any_eq_true, List.mem_filter, Text.occurs_iff, and_assoc]

theorem missing_eq_nil_iff :
    block.missing scenario log = [] ↔
      ∀ fragment ∈ block.messages, ∃ entry ∈ log.errors, block.Expects scenario fragment entry := by
  unfold missing
  rw [List.map_eq_nil_iff, List.filter_eq_nil_iff]
  refine forall₂_congr fun fragment _ => ?_
  rw [← isMet_iff, Bool.not_eq_true', Bool.not_eq_false]

end ExpectedErrors

namespace ScenarioDecl

variable {decl : ScenarioDecl} {log : Log}

theorem expectsErrors_iff : decl.expectsErrors = true ↔ decl.compileExpectations ≠ [] := by
  simp [expectsErrors]

theorem outcome_eq_matched_iff :
    decl.outcome log = .matched ↔
      decl.compileExpectations ≠ [] ∧
        ∀ block ∈ decl.compileExpectations, ∀ fragment ∈ block.messages,
          ∃ entry ∈ log.errors, block.Expects decl.name fragment entry := by
  have hmissing :
      decl.compileExpectations.flatMap (fun block => block.missing decl.name log) = [] ↔
        ∀ block ∈ decl.compileExpectations, ∀ fragment ∈ block.messages,
          ∃ entry ∈ log.errors, block.Expects decl.name fragment entry := by
    rw [List.flatMap_eq_nil_iff]
    exact forall₂_congr fun block _ => ExpectedErrors.missing_eq_nil_iff
  rw [← expectsErrors_iff, ← hmissing]
  unfold outcome
  cases decl.expectsErrors with
  | true =>
    rw [if_pos rfl, ← List.isEmpty_iff]
    dsimp only
    cases List.isEmpty _ <;> simp
  | false =>
    rw [if_neg (by decide)]
    dsimp only
    cases List.isEmpty _ <;> simp

/-- A scenario that is matched expects errors, and one of them is in the log exactly if there is a
message in one of its blocks. -/
theorem exists_expected_iff (h : decl.outcome log = .matched) :
    decl.compileExpectations ≠ [] ∧
      ((∃ block ∈ decl.compileExpectations, ∃ fragment ∈ block.messages, ∃ entry ∈ log.errors,
          block.Expects decl.name fragment entry) ↔
        ∃ block ∈ decl.compileExpectations, block.messages ≠ []) := by
  obtain ⟨hne, hmet⟩ := outcome_eq_matched_iff.1 h
  refine ⟨hne, fun ⟨block, hblock, fragment, hfragment, _⟩ => ?_, fun ⟨block, hblock, hmessages⟩ => ?_⟩
  · exact ⟨block, hblock, List.ne_nil_of_mem hfragment⟩
  · obtain ⟨fragment, hfragment⟩ := List.exists_mem_of_ne_nil _ hmessages
    exact ⟨block, hblock, fragment, hfragment, hmet block hblock fragment hfragment⟩

end ScenarioDecl

namespace Dialect

/-- A scenario that expects that the function it tests is not there. -/
def expectedUnknown : List String :=
  ["scenario S", "  function Missing", "  expectError \"Unknown function\""]

theorem exists_expected_iff_expectedUnknown :
    ∃ compiled, ({} : Dialect).compileLines { tolerant := true } "unknown" expectedUnknown =
        .ok compiled ∧
      ∃ decl ∈ compiled.document.scenarios, decl.outcome compiled.log = .matched ∧
        decl.compileExpectations ≠ [] ∧
        ((∃ block ∈ decl.compileExpectations, ∃ fragment ∈ block.messages,
            ∃ entry ∈ compiled.log.errors, block.Expects decl.name fragment entry) ↔
          ∃ block ∈ decl.compileExpectations, block.messages ≠ []) := by
  have hany : (({} : Dialect).compileLines { tolerant := true } "unknown"
      expectedUnknown).toOption.any (fun compiled =>
        compiled.document.scenarios.any fun decl => decl.outcome compiled.log == .matched) =
      true := by
    decide +kernel
  obtain ⟨compiled, hcompiled, hany⟩ := (Option.any_eq_true _ _).1 hany
  obtain ⟨decl, hdecl, hmatched⟩ := List.any_eq_true.1 hany
  have hmatched := eq_of_beq hmatched
  exact ⟨compiled, compileLines_eq_ok hcompiled, decl, hdecl, hmatched,
    ScenarioDecl.exists_expected_iff hmatched⟩

/-- A scenario with a block for expected errors and nothing in it. -/
def nothingExpected : List String :=
  ["function F", "  parameters", "    number A", "scenario S", "  function F", "  expectErrors"]

/-- The scenario is matched, and its document compiles without errors. -/
theorem matched_nothingExpected :
    ∃ compiled, ({} : Dialect).compileLines {} "nothing" nothingExpected = .ok compiled ∧
      compiled.log.errors = [] ∧
      ∃ decl ∈ compiled.document.scenarios, decl.expectsErrors = true ∧
        decl.outcome compiled.log = .matched := by
  have hany : (({} : Dialect).compileLines {} "nothing" nothingExpected).toOption.any
      (fun compiled => compiled.log.errors.isEmpty &&
        compiled.document.scenarios.any fun decl =>
          decl.expectsErrors && decl.outcome compiled.log == .matched) = true := by
    decide +kernel
  obtain ⟨compiled, hcompiled, hall⟩ := (Option.any_eq_true _ _).1 hany
  obtain ⟨hclean, hscenarios⟩ := (Bool.and_eq_true _ _).mp hall
  obtain ⟨decl, hdecl, hdecide⟩ := List.any_eq_true.1 hscenarios
  obtain ⟨hexpects, hmatched⟩ := (Bool.and_eq_true _ _).mp hdecide
  exact ⟨compiled, compileLines_eq_ok hcompiled, List.isEmpty_iff.1 hclean, decl, hdecl, hexpects,
    eq_of_beq hmatched⟩

end Dialect

end DecisionLang
