import DecisionLang.CommandLine.Run

/-!
# Command line

Reads the files that a request asks for, and prints the answer. Files are read as they are asked
for: each round shows which further files are included, until all of them have been looked at.
-/

namespace DecisionLang

/-- Adds the file at a path, if there is one. -/
def lookAtFile (tree : FileTree) (path : SourcePath) : IO FileTree := do
  try
    return tree.add path (← IO.FS.readBinFile path.text)
  catch _ => return tree

/-- Names of what is in the directory at a path, if there is one. -/
def entries? (path : SourcePath) : IO (Option (List String)) := do
  try
    let entries ← (← IO.FS.realPath path.text).readDir
    return some (entries.toList.map fun entry => entry.fileName)
  catch _ => return none

/-- Adds the file or the directory at a path, if there is one. -/
def lookAtPlace (tree : FileTree) (path : SourcePath) : IO FileTree := do
  if (← entries? path).isSome then return tree.addDirectory path
  lookAtFile tree path

/-- Adds all that a path passes, and the source files in the directory that it leads to. -/
def look (tree : FileTree) (path : SourcePath) : IO FileTree := do
  let tree ← path.passed.foldlM lookAtPlace tree
  match ← entries? path with
  | none => return tree
  | some names =>
    let files := (names.map fun name => path.join ⟨name⟩).filter
      (·.hasExtension ({} : ReadOptions).fileExtension)
    files.foldlM lookAtFile tree

/-- Looks at all that an invocation asks for; `seen` has been looked at. -/
partial def gather (invocation : Invocation) (tree : FileTree) (seen : List SourcePath) :
    IO FileTree := do
  match ((invocation.places tree).filter (!seen.contains ·)).eraseDups with
  | [] => return tree
  | places => gather invocation (← places.foldlM look tree) (seen ++ places)

/-- The directory that relative paths start from. -/
def workingTree : IO FileTree := do
  return { here := ({} : FileTree).names ⟨(← IO.currentDir).toString⟩ }

end DecisionLang

open DecisionLang in
def main (arguments : List String) : IO UInt32 := do
  let tree ← workingTree
  let tree ← match Request.ofArguments? arguments with
    | some (.perform invocation) => gather invocation tree []
    | _ => pure tree
  let result := Request.runArguments tree arguments
  IO.print result.out
  IO.eprint result.err
  return result.code.toUInt32
