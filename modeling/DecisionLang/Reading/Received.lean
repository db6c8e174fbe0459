import DecisionLang.Grammar
import DecisionLang.Reading.Indentation

/-!
# Lines taken

A receiver either takes a line, and says who takes the lines below it, or refuses it with a
diagnostic, which leaves everything as it was. Reading lines is numbered like reading expressions:
a refused line may have used up numbers.
-/

namespace DecisionLang

/-- A fault in a line that is taken all the same. -/
structure Remark where
  diagnostic : Diagnostic
  /-- Declaration the fault is attributed to, if not the one the line belongs to. -/
  owner : Option String

/-- A receiver after a line. -/
structure Received (α : Type) where
  receiver : α
  answer : Answer
  remarks : List Remark

namespace Received

/-- A line that nobody takes lines below of. -/
def leaf {α : Type} (receiver : α) : Received α := ⟨receiver, .leaf, []⟩

/-- A line that opens the receiver at a path. -/
def child {α : Type} (receiver : α) (path : SlotPath) : Received α := ⟨receiver, .child path, []⟩

def map {α β : Type} (f : α → β) (received : Received α) : Received β :=
  { received with receiver := f received.receiver }

/-- Seen from a receiver that forwards the line to the one in a slot of its own. -/
def within {α : Type} (slot : Nat) (received : Received α) : Received α :=
  { received with answer := received.answer.within slot }

end Received

/-- Refuses a line at its start. -/
def Line.refuse {α : Type} (line : Line) (fault : Fault) : Numbered α :=
  throw (fault.located line.start)

/-- Refuses tokens after the first one. -/
def Line.expectSingle (line : Line) (keyword : Keyword) : Numbered Unit :=
  match line.tokens with
  | _ :: extra :: _ =>
    Numbered.fail line extra
      (.invalidToken extra.text s!"No tokens expected after '{keyword.spelling}'.")
  | _ => return ()

end DecisionLang
