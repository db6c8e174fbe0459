import DecisionLang.Files.SourcePath
import DecisionLang.Reading.Source

/-!
# Reading included files

Inclusions are resolved after the source that holds them has been read, relative to the file they
are in, until none is left. A file is read at most once, whatever paths lead to it and whatever
cycles the inclusions form: `unread` holds the files that have not been read, and every round that
adds inclusions shortens it.
-/

namespace DecisionLang

namespace Inclusion

/-- The path that an inclusion names, relative to the directory of the file that it is in. -/
def target (inclusion : Inclusion) : SourcePath :=
  ((SourcePath.parent? ⟨inclusion.reference.file⟩).getD ⟨""⟩).join ⟨inclusion.fileName⟩

/-- The files that an inclusion stands for. A directory stands for the files in it that have the
given extension; a file name without an extension is given that one. -/
def files? (inclusion : Inclusion) (files : FileSystem) (extension : String) :
    Option (List SourcePath) :=
  if files.isDirectory inclusion.target then files.filesIn? inclusion.target extension
  else
    let file := inclusion.target.withDefaultExtension extension
    if files.isFile file then some [file] else none

end Inclusion

/-- How documents are read. -/
structure ReadOptions where
  /-- Spaces for one level of indentation. -/
  indentWidth : Nat := 2
  /-- Extension of included files, without the point and without separators. -/
  fileExtension : String := "lexy"
  resolveIncludes : Bool := true
  deriving DecidableEq

/-- Reading between two inclusions. -/
structure Including where
  progress : Progress
  unread : List SourcePath

namespace Including

/-- Reports an inclusion, on behalf of no declaration. -/
def reject (state : Including) (inclusion : Inclusion) : Including :=
  { state with
    progress := state.progress.report none
      ((Fault.invalidInclude inclusion.fileName).located inclusion.reference) }

/-- Reads one of the files of an inclusion, unless it has been read. -/
def readNamed (grammar : Grammar) (options : ReadOptions) (files : FileSystem)
    (inclusion : Inclusion) (state : Including) (file : SourcePath) : Including :=
  let name := files.normal file
  if state.unread.contains name then
    let state := { state with unread := state.unread.filter (· != name) }
    match files.readLines file with
    | .ok lines =>
      { state with
        progress := state.progress.readSource grammar options.indentWidth file.text lines }
    | .error _ => state.reject inclusion
  else state

/-- Reads the files of the inclusion with the given index. -/
def process (grammar : Grammar) (options : ReadOptions) (files : FileSystem) (state : Including)
    (index : Nat) : Including :=
  match state.progress.document.inclusions[index]? with
  | none => state
  | some inclusion =>
    let processed := { inclusion with processed := true }
    let state := { state with
      progress.document.inclusions :=
        state.progress.document.inclusions.set index processed }
    match inclusion.files? files options.fileExtension with
    | none => state.reject processed
    | some included => included.foldl (readNamed grammar options files processed) state

/-- Indices of the inclusions that are left. -/
def pending (state : Including) : List Nat :=
  (state.progress.document.inclusions.zipIdx.filter fun item => !item.1.processed).map Prod.snd

/-- Processes the inclusions that are left now. -/
def round (grammar : Grammar) (options : ReadOptions) (files : FileSystem) (state : Including) :
    Including :=
  state.pending.foldl (process grammar options files) state

/-- Rounds until one reads no file and so adds no inclusion. -/
def resolve (grammar : Grammar) (options : ReadOptions) (files : FileSystem)
    (state : Including) : Including :=
  let next := state.round grammar options files
  if next.unread.length < state.unread.length then next.resolve grammar options files else next
termination_by state.unread.length

end Including

namespace Progress

/-- Reads lines and the files that they include. -/
def readIncluding (grammar : Grammar) (options : ReadOptions) (files : FileSystem)
    (file : String) (lines : List String) : Progress :=
  let main := files.normal ⟨file⟩
  let progress := ({} : Progress).readSource grammar options.indentWidth file lines
  if options.resolveIncludes then
    (Including.resolve grammar options files
      ⟨progress, files.files.filter (· != main)⟩).progress
  else progress

/-- Reads a file and the files that it includes. -/
def readNamed (grammar : Grammar) (options : ReadOptions) (files : FileSystem) (file : String) :
    Progress :=
  match files.readLines ⟨file⟩ with
  | .ok lines => readIncluding grammar options files file lines
  | .error reason =>
    { log := ({} : Log).failUnlocated s!"Could not read file '{file}': {reason}" }

end Progress

end DecisionLang
