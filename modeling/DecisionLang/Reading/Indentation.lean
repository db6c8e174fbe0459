/-!
# Who receives the next line

A receiver that has been given a line answers who receives the lines one level deeper. Receivers
are addressed by paths of slots, relative to the one that answers.

For every depth that a line may have, an `Indentation` holds the path to the receiver of lines at
that depth, or nothing where such lines are passed over. A line at some depth closes all deeper
blocks: `enter` forgets them.
-/

namespace DecisionLang

/-- Slots to follow from one receiver to another below it. -/
abbrev SlotPath := List Nat

inductive Answer where
  /-- The receiver of the line itself. -/
  | current
  | child (path : SlotPath)
  /-- Nobody: a deeper line is a fault. -/
  | leaf
  /-- Nobody, and deeper lines are passed over, so that one fault is not reported many times. -/
  | ignore
  deriving DecidableEq

namespace Answer

/-- The same answer, seen from a receiver that holds the answering one in a slot. -/
def within (slot : Nat) : Answer → Answer
  | current => child [slot]
  | child path => child (slot :: path)
  | leaf => leaf
  | ignore => ignore

end Answer

structure Indentation where
  /-- The entry at a depth. -/
  entries : List (Option SlotPath)
  entries_ne_nil : entries ≠ [] := by simp

namespace Indentation

/-- Before the first line, only the document itself receives lines. -/
def start : Indentation := ⟨[some []], by simp⟩

/-- Depth of the deepest lines that are allowed. -/
def maxDepth (indentation : Indentation) : Nat := indentation.entries.length - 1

/-- Closes the blocks deeper than a line. -/
def close (indentation : Indentation) (depth : Nat) : Indentation :=
  ⟨indentation.entries.take (depth + 1), by simpa using indentation.entries_ne_nil⟩

/-- Receiver of lines at a depth, if that depth is allowed and not passed over. -/
def receiver? (indentation : Indentation) (depth : Nat) : Option SlotPath :=
  indentation.entries[depth]?.join

/-- Lets a line at some depth in: its receiver, and what is open from then on. A line that is too
deep closes nothing. -/
def enter (indentation : Indentation) (depth : Nat) : Option SlotPath × Indentation :=
  (indentation.receiver? depth, indentation.close depth)

/-- Makes a receiver the one for lines at a depth, and nobody for deeper ones. Depths skipped on
the way are passed over. -/
def set (indentation : Indentation) (depth : Nat) (path : Option SlotPath) : Indentation :=
  let shallower := indentation.entries.take depth
  ⟨shallower ++ List.replicate (depth - shallower.length) none ++ [path], by simp⟩

/-- Slot of the root declaration that lines at a depth belong to. -/
def rootSlot? (indentation : Indentation) (depth : Nat) : Option Nat :=
  ((indentation.entries.take (depth + 1)).filterMap fun path => path).reverse.findSome? List.head?

/-- Slot of the root declaration that is being read. -/
def openSlot? (indentation : Indentation) : Option Nat :=
  indentation.rootSlot? indentation.maxDepth

/-- What is open after a line at a depth, from the path and the answer of its receiver. -/
def after (indentation : Indentation) (depth : Nat) (path : SlotPath) :
    Answer → Indentation
  | .current => indentation.set (depth + 1) (some path)
  | .child relative => indentation.set (depth + 1) (some (path ++ relative))
  | .leaf => indentation
  | .ignore => indentation.set (depth + 1) none

theorem length_entries_pos (indentation : Indentation) : 0 < indentation.entries.length :=
  List.length_pos_iff.2 indentation.entries_ne_nil

@[simp] theorem maxDepth_set (indentation : Indentation) (depth : Nat) (path : Option SlotPath) :
    (indentation.set depth path).maxDepth = depth := by
  simp only [set, maxDepth, List.length_append, List.length_take, List.length_replicate,
    List.length_singleton]
  omega

end Indentation

end DecisionLang
