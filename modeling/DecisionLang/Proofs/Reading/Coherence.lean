import DecisionLang.Proofs.Reading.Numbering
import DecisionLang.Proofs.Reading.Run
import DecisionLang.Proofs.Reading.WellFormed

/-!
# What holds of everything that has been read

Numbers are handed out once, trees are well-formed, and names of declarations are distinct unless an
error has been logged. One step keeps all three, and so does a run. Main statements:
`Progress.Reads.coherent` and, for whole documents, `Progress.IsRead.numbers_distinct` and
`Progress.IsRead.everywhere_wellFormed`.
-/

namespace DecisionLang

namespace Receiver

variable {grammar : Grammar} {line : Line} {next after : Nat} {received : Received Receiver}

theorem Replaces.names {document document' : Document} {inner inner' : Receiver}
    (h : (Receiver.document document).Replaces inner inner' (.document document')) :
    document'.names = document.names := by
  cases h with
  | @declaration _ slot declaration declaration' hslot hname =>
    unfold Document.names
    obtain ⟨hlt, rfl⟩ := List.getElem?_eq_some_iff.1 hslot
    have hbound : slot < (document.declarations.map Declaration.name).length := by simpa using hlt
    have hname' : declaration'.name = (document.declarations.map Declaration.name)[slot] := by
      rw [hname, List.getElem_map]
    rw [List.map_set, hname', List.set_getElem_self]

/-- A line that is taken by a document keeps the names of its declarations, and adds one that is
taken only with a remark. -/
theorem Takes.names {document document' : Document} {path : SlotPath}
    (h : Takes grammar line path (.document document) next received after)
    (hdocument : received.receiver = .document document') :
    document'.names = document.names ∨ ∃ name, document'.names = document.names ++ [name] ∧
      (name ∈ document.names → received.remarks ≠ []) := by
  cases h with
  | here haccepted =>
    cases haccepted with
    | skip | malformedInclusion | inclusion =>
      cases hdocument
      exact .inl rfl
    | @declaration _ keyword name declaration _ hname hsort =>
      cases hdocument
      refine .inr ⟨declaration.name, List.map_append, fun hmem => ?_⟩
      have hfound : (document.find? declaration.name).isSome = true := by
        obtain ⟨other, hother, hsame⟩ := List.mem_map.1 hmem
        exact List.find?_isSome.2 ⟨other, hother, beq_iff_eq.2 hsame⟩
      simp [DeclarationLine.addDeclaration, Received.map, hfound]
  | inside hslot htaken =>
    have hreplaces := replaces_of_slot? hslot htaken.alike
    rw [show (Receiver.document document).withSlot _ _ = .document document' from hdocument]
      at hreplaces
    exact .inl hreplaces.names

end Receiver

namespace Progress

/-- What readings keep. -/
structure Coherent (progress : Progress) : Prop where
  numbers : Fresh (Receiver.document progress.document).numbers 0 progress.nextId
  wellFormed : (Receiver.document progress.document).WellFormed
  names : progress.document.names.Nodup ∨ progress.log.hasErrors = true

theorem coherent_start : ({} : Progress).Coherent :=
  ⟨.nil 0, fun _ hitem => absurd hitem List.not_mem_nil, .inl List.nodup_nil⟩

variable {grammar : Grammar} {progress progress' : Progress}

theorem Coherent.regular (h : progress.Coherent) :
    ∀ item ∈ progress.document.declarations, (Node.ofDeclaration item).AllRegular :=
  fun item hitem => (h.wellFormed item hitem).allRegular

theorem Step.coherent (h : Step grammar progress progress') (hcoherent : progress.Coherent) :
    progress'.Coherent := by
  cases h with
  | idle hdeclarations hnext hlog =>
    refine ⟨?_, ?_, ?_⟩
    · have hnumbers : (Receiver.document progress'.document).numbers =
          (Receiver.document progress.document).numbers := by
        simp only [Receiver.numbers, hdeclarations]
      rw [hnumbers]
      exact hcoherent.numbers.mono hnext
    · intro item hitem
      exact hcoherent.wellFormed item (hdeclarations ▸ hitem)
    · unfold Document.names
      rw [hdeclarations]
      exact hcoherent.names.imp_right hlog.hasErrors
  | take hline htaken hdocument hlog hremarks =>
    refine ⟨?_, ?_, ?_⟩
    · obtain ⟨fresh, hfresh, hperm⟩ := htaken.exists_fresh
      rw [hdocument] at hperm
      exact (hcoherent.numbers.append hfresh).perm hperm.symm
    · exact hdocument ▸ htaken.wellFormed (Line.hasIdentifiers_of_read hline) hcoherent.wellFormed
    · rcases hcoherent.names with hnodup | herrors
      · rcases htaken.names hdocument with hsame | ⟨name, hadded, hknown⟩
        · exact .inl (hsame ▸ hnodup)
        · by_cases hmem : name ∈ progress.document.names
          · exact .inr (hremarks (hknown hmem))
          · rw [hadded]
            exact .inl (List.nodup_append.2 ⟨hnodup, List.nodup_singleton name, by grind⟩)
      · exact .inr (hlog.hasErrors herrors)

theorem Reads.coherent (h : Reads grammar progress progress') (hcoherent : progress.Coherent) :
    progress'.Coherent := by
  induction h with
  | refl => exact hcoherent
  | tail _ hstep ih => exact hstep.coherent ih

theorem IsRead.coherent (h : progress.IsRead grammar) : progress.Coherent :=
  h.reads.coherent coherent_start

/-- No two expressions or definitions of a document have the same number, and the next free number
is greater than all of theirs, whatever errors were logged and whatever files were included. -/
theorem IsRead.numbers_distinct (h : progress.IsRead grammar) :
    let numbers := progress.document.declarations.flatMap fun item =>
      (Node.ofDeclaration item).numbers
    numbers.Nodup ∧ ∀ number ∈ numbers, number < progress.nextId :=
  ⟨h.coherent.numbers.nodup, fun number hnumber => (h.coherent.numbers.bounds number hnumber).2⟩

/-- The third line is refused after its expressions have been numbered. -/
def refusedParameter : List String :=
  ["function Payout", "  parameters", "    Rate * 3", "    number Rate = 2", "  code",
    "    number X = Rate"]

theorem numbers_distinct_refusedParameter :
    let progress := ({} : Progress).readSource .standard 2 "payout.lexy" refusedParameter
    let numbers := progress.document.declarations.flatMap fun item =>
      (Node.ofDeclaration item).numbers
    progress.log.hasErrors = true ∧ progress.IsRead .standard ∧ numbers = [4, 3, 6, 5] ∧
      numbers.Nodup ∧ ∀ number ∈ numbers, number < progress.nextId := by
  have hread : IsRead .standard
      (({} : Progress).readSource .standard 2 "payout.lexy" refusedParameter) := .lines 2 _ _
  exact ⟨by decide +kernel, hread, by decide +kernel, hread.numbers_distinct⟩

/-- Every declaration of a document is well-formed with everything in it, whatever errors were
logged and whatever files were included. -/
theorem IsRead.everywhere_wellFormed (h : progress.IsRead grammar) :
    ∀ item ∈ progress.document.declarations,
      (Node.ofDeclaration item).Everywhere Node.WellFormed := h.coherent.wellFormed

/-- A member that is there already, and branches that belong to no chain. -/
def refusedBranches : List String :=
  ["enum Kind", "  Low = 1", "  Low = 2", "function Payout", "  code", "    else", "    if true",
    "      number X = 1", "    elseif false", "      number X = 2", "    else",
    "      number X = 3", "    elseif true"]

theorem everywhere_wellFormed_refusedBranches :
    let progress := ({} : Progress).readSource .standard 2 "payout.lexy" refusedBranches
    progress.log.errors.length = 3 ∧ progress.IsRead .standard ∧
      progress.document.names = ["Kind", "Payout"] ∧
      ∀ item ∈ progress.document.declarations,
        (Node.ofDeclaration item).Everywhere Node.WellFormed := by
  have hread : IsRead .standard
      (({} : Progress).readSource .standard 2 "payout.lexy" refusedBranches) := .lines 2 _ _
  exact ⟨by decide +kernel, hread, by decide +kernel, hread.everywhere_wellFormed⟩

end Progress

end DecisionLang
