import DecisionLang.Files.SourcePath

/-!
# Files in memory

Files are kept under their normalized paths, in the order of those; a file added again replaces
the earlier one. There are no directories but those that files are in.
-/

namespace DecisionLang

structure MemoryFiles where
  files : List (SourcePath × String) := []

namespace MemoryFiles

def insert (path : SourcePath) (content : String) :
    List (SourcePath × String) → List (SourcePath × String)
  | [] => [(path, content)]
  | file :: files =>
    match path.order file.1 with
    | .lt => (path, content) :: file :: files
    | .eq => (path, content) :: files
    | .gt => file :: insert path content files

def add (memory : MemoryFiles) (path : SourcePath) (content : String) : MemoryFiles :=
  ⟨insert path.normalized content memory.files⟩

def ofList (files : List (String × String)) : MemoryFiles :=
  files.foldl (fun memory (path, content) => memory.add ⟨path⟩ content) {}

def content? (memory : MemoryFiles) (path : SourcePath) : Option String :=
  (memory.files.find? fun file => file.1 == path.normalized).map Prod.snd

def isDirectory (memory : MemoryFiles) (path : SourcePath) : Bool :=
  memory.files.any fun file => file.1.startsWith path.normalized && file.1 != path.normalized

def filesIn (memory : MemoryFiles) (path : SourcePath) (extension : String) : List SourcePath :=
  (memory.files.map Prod.fst).filter fun file =>
    file.parent? == some path.normalized && file.hasExtension extension

def readLines (memory : MemoryFiles) (path : SourcePath) : Except String (List String) :=
  match memory.content? path with
  | some content => .ok (Text.lines content)
  | none => .error s!"file not found: {path.text}"

def fileSystem (memory : MemoryFiles) : FileSystem where
  files := memory.files.map Prod.fst
  normal := SourcePath.normalized
  isFile path := (memory.content? path).isSome
  isDirectory := memory.isDirectory
  filesIn? path extension := some (memory.filesIn path extension)
  readLines := memory.readLines

end MemoryFiles

end DecisionLang
