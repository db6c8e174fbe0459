/-!
# Lines of a text

A text is split at line feeds. A carriage return right before a line feed belongs to the line end,
and a line feed at the very end opens no further line.
-/

namespace DecisionLang.Text

/-- The pieces between line feeds, the last one kept even if empty. -/
def pieces : List Char → List (List Char)
  | [] => [[]]
  | c :: cs =>
    if c = '\n' then [] :: pieces cs
    else
      match pieces cs with
      | [] => [[c]]
      | piece :: rest => (c :: piece) :: rest

/-- One final carriage return is dropped. -/
def dropReturn (line : List Char) : List Char :=
  if line.getLast? = some '\r' then line.dropLast else line

/-- Every piece but the last ends at a line feed; the last one is a line only if not empty. -/
def linesOfPieces : List (List Char) → List (List Char)
  | [] => []
  | [last] => if last.isEmpty then [] else [last]
  | piece :: rest => dropReturn piece :: linesOfPieces rest

def lines (text : String) : List String :=
  (linesOfPieces (pieces text.toList)).map String.ofList

/-- The pieces between occurrences of a separator, empty ones included. -/
def splitAt (separator : Char) : List Char → List (List Char)
  | [] => [[]]
  | c :: cs =>
    if c = separator then [] :: splitAt separator cs
    else
      match splitAt separator cs with
      | [] => [[c]]
      | piece :: rest => (c :: piece) :: rest

/-- The parts of a dotted text. -/
def dotted (text : String) : List String :=
  (splitAt '.' text.toList).map String.ofList

theorem splitAt_ne_nil (separator : Char) (text : List Char) : splitAt separator text ≠ [] := by
  cases text with
  | nil => simp [splitAt]
  | cons c cs =>
    unfold splitAt
    split
    · simp
    · split <;> simp

/-- Joining the pieces with the separator gives the text back. -/
theorem intercalate_splitAt (separator : Char) (text : List Char) :
    [separator].intercalate (splitAt separator text) = text := by
  induction text with
  | nil => simp [splitAt]
  | cons c cs ih =>
    unfold splitAt
    split
    · next h =>
      subst h
      obtain ⟨piece, rest, hs⟩ := List.exists_cons_of_ne_nil (splitAt_ne_nil c cs)
      rw [hs] at ih ⊢
      simp_all [List.intercalate]
    · split
      · next h => exact absurd h (splitAt_ne_nil separator cs)
      · next piece rest hs =>
        rw [hs] at ih
        cases rest <;> simp_all [List.intercalate]

variable {separator : Char} {piece text : List Char}

/-- A text without the separator is one piece. -/
theorem splitAt_of_notMem (h : separator ∉ piece) : splitAt separator piece = [piece] := by
  induction piece with
  | nil => rfl
  | cons c cs ih =>
    rw [List.mem_cons, not_or] at h
    rw [splitAt, if_neg (Ne.symm h.1), ih h.2]

/-- The first separator ends the first piece. -/
theorem splitAt_append_cons (h : separator ∉ piece) :
    splitAt separator (piece ++ separator :: text) = piece :: splitAt separator text := by
  induction piece with
  | nil => rw [List.nil_append, splitAt, if_pos rfl]
  | cons c cs ih =>
    rw [List.mem_cons, not_or] at h
    rw [List.cons_append, splitAt, if_neg (Ne.symm h.1), ih h.2]

/-- Pieces without the separator can be told apart after they have been joined with it. -/
theorem splitAt_intercalate {pieces : List (List Char)} (hne : pieces ≠ [])
    (h : ∀ piece ∈ pieces, separator ∉ piece) :
    splitAt separator ([separator].intercalate pieces) = pieces := by
  induction pieces with
  | nil => exact absurd rfl hne
  | cons first rest ih =>
    have hfirst := h first List.mem_cons_self
    cases rest with
    | nil => simpa using splitAt_of_notMem hfirst
    | cons second rest =>
      have hrest := ih (List.cons_ne_nil _ _) fun piece hpiece => h piece (.tail _ hpiece)
      rw [List.intercalate_cons_cons, List.append_assoc, List.singleton_append,
        splitAt_append_cons hfirst, hrest]

theorem notMem_of_mem_splitAt (h : piece ∈ splitAt separator text) : separator ∉ piece := by
  induction text generalizing piece with
  | nil =>
    rw [List.mem_singleton.1 h]
    exact List.not_mem_nil
  | cons c cs ih =>
    unfold splitAt at h
    split at h
    · rcases List.mem_cons.1 h with rfl | hrest
      · exact List.not_mem_nil
      · exact ih hrest
    · next hc =>
      split at h
      · next hnil => exact absurd hnil (splitAt_ne_nil separator cs)
      · next first rest hpieces =>
        rw [hpieces] at ih
        rcases List.mem_cons.1 h with rfl | hrest
        · rw [List.mem_cons, not_or]
          exact ⟨Ne.symm hc, ih List.mem_cons_self⟩
        · exact ih (.tail _ hrest)

end DecisionLang.Text
