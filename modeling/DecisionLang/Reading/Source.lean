import DecisionLang.Reading.Indentation
import DecisionLang.Reading.Progress

/-!
# Reading the lines of a source

Each line goes to the receiver of its depth. Blank lines and lines with only a comment have no
depth and change nothing about who receives which lines; nor does a line that cannot be scanned or
whose indentation is at fault.
-/

namespace DecisionLang

/-- Reading in the middle of a source. -/
structure SourceReading where
  progress : Progress
  indentation : Indentation

namespace SourceReading

/-- The root declaration that is being read. -/
def openOwner (reading : SourceReading) : Option String :=
  reading.progress.ownerAt reading.indentation.openSlot?

/-- Reports a line that does not get as far as a receiver. -/
def reject (reading : SourceReading) (diagnostic : Diagnostic) : SourceReading :=
  { reading with progress := reading.progress.report reading.openOwner diagnostic }

def addComment (reading : SourceReading) (line : Line) : SourceReading :=
  let document := reading.progress.document
  let comments := line.comment.toList.filterMap fun token =>
    match token.kind with
    | .comment text => some ⟨text, line.tokenReference token⟩
    | _ => none
  { reading with progress.document.comments := document.comments ++ comments }

/-- Gives a line to the receiver at a path. -/
def give (reading : SourceReading) (grammar : Grammar) (line : Line) (depth : Nat)
    (path : SlotPath) : SourceReading :=
  let owner := reading.progress.ownerAt path.head?
  match reading.progress.take? grammar line path owner with
  | some (progress, answer) => ⟨progress, reading.indentation.after depth path answer⟩
  | none => { reading with indentation := reading.indentation.after depth path .ignore }

/-- A line with tokens at an allowed depth: it goes to the receiver there, or is passed over with
everything below it. -/
def enter (reading : SourceReading) (grammar : Grammar) (line : Line) (depth : Nat) :
    SourceReading :=
  match reading.indentation.enter depth with
  | (some path, indentation) => { reading with indentation }.give grammar line depth path
  | (none, indentation) => { reading with indentation := indentation.set (depth + 1) none }

/-- A line with tokens. -/
def place (reading : SourceReading) (grammar : Grammar) (width : Nat) (line : Line) :
    SourceReading :=
  match line.depth width with
  | .error diagnostic => reading.reject diagnostic
  | .ok depth =>
    let most := reading.indentation.maxDepth
    if most < depth then
      reading.reject ((Fault.indentation
        s!"expected at most {most} levels, found {depth}.").located line.start)
    else reading.enter grammar line depth

/-- A line of the source, with its index. -/
def readLine (grammar : Grammar) (width : Nat) (file : String) (reading : SourceReading)
    (text : String) (index : Nat) : SourceReading :=
  if text.toList.all Text.isBlank then reading
  else
    match Line.read file index text with
    | .error diagnostic => reading.reject diagnostic
    | .ok line =>
      if line.isCommentOnly then reading.addComment line else reading.place grammar width line

end SourceReading

/-- Reads the lines of a source after what has been read already. -/
def Progress.readSource (progress : Progress) (grammar : Grammar) (width : Nat) (file : String)
    (lines : List String) : Progress :=
  (lines.zipIdx.foldl
    (fun reading (text, index) => reading.readLine grammar width file text index)
    (⟨progress, Indentation.start⟩ : SourceReading)).progress

end DecisionLang
