import DecisionLang.Files.SourcePath
import DecisionLang.Text.Lines

/-!
# Files below a root directory

Each file stands under the names that lead to it from the root. A directory exists if a file or the
place that relative paths start from is in it, or if it is listed. A path is followed name by name,
so that a step up needs the directory before it to exist. There are no links: a place has one list
of names, which is its normal form.
-/

namespace DecisionLang

/-- Why a place cannot be accessed. -/
inductive AccessError where
  | notFound
  | notDirectory
  | isDirectory
  | nameTooLong
  /-- The bytes of a file are no text. -/
  | notText
  deriving DecidableEq

namespace AccessError

def message : AccessError → String
  | notFound => "No such file or directory (os error 2)"
  | notDirectory => "Not a directory (os error 20)"
  | isDirectory => "Is a directory (os error 21)"
  | nameTooLong => "File name too long (os error 36)"
  | notText => "stream did not contain valid UTF-8"

end AccessError

structure FileTree where
  /-- Where relative paths start. -/
  here : List String := []
  files : List (List String × ByteArray) := []
  /-- Directories, as far as no file tells that they exist. -/
  directories : List (List String) := []

namespace FileTree

/-- Most bytes in one name. -/
def nameLimit : Nat := 255

/-- Most bytes in one path. -/
def pathLimit : Nat := 4095

def content? (tree : FileTree) (names : List String) : Option ByteArray :=
  (tree.files.find? fun file => file.1 == names).map Prod.snd

def hasFile (tree : FileTree) (names : List String) : Bool := (tree.content? names).isSome

def hasDirectory (tree : FileTree) (names : List String) : Bool :=
  names.isPrefixOf tree.here || tree.directories.any names.isPrefixOf ||
    tree.files.any fun file => names.isPrefixOf file.1.dropLast

/-- Takes one piece of a path from a place that exists. -/
def step (tree : FileTree) (names : List String) (piece : String) :
    Except AccessError (List String) :=
  let next := names ++ [piece]
  if !tree.hasDirectory names then .error .notDirectory
  else if SourcePath.isIdle piece then .ok names
  else if piece == ".." then .ok names.dropLast
  else if nameLimit < piece.utf8ByteSize then .error .nameTooLong
  else if tree.hasDirectory next || tree.hasFile next then .ok next
  else .error .notFound

/-- Where relative or absolute paths start. -/
def start (tree : FileTree) (path : SourcePath) : List String :=
  if path.isAbsolute then [] else tree.here

/-- The names of the file or directory that a path leads to. -/
def locate (tree : FileTree) (path : SourcePath) : Except AccessError (List String) :=
  if path.text.isEmpty then .error .notFound
  else if pathLimit < path.text.utf8ByteSize then .error .nameTooLong
  else ((Text.splitAt '/' path.text.toList).map String.ofList).foldlM tree.step (tree.start path)

def read (tree : FileTree) (path : SourcePath) : Except AccessError ByteArray := do
  match tree.content? (← tree.locate path) with
  | some content => .ok content
  | none => .error .isDirectory

def readText (tree : FileTree) (path : SourcePath) : Except AccessError String := do
  match String.fromUTF8? (← tree.read path) with
  | some text => .ok text
  | none => .error .notText

/-- The names that a path stands for if all that it passes are directories. -/
def names (tree : FileTree) (path : SourcePath) : List String :=
  path.components.foldl (fun names component =>
    match component with
    | .normal name => names ++ [name]
    | .parent => names.dropLast
    | .root | .current => names) (tree.start path)

/-- Puts a file at a place, instead of the one that is there. -/
def add (tree : FileTree) (path : SourcePath) (content : ByteArray) : FileTree :=
  let place := tree.names path
  { tree with files := (place, content) :: tree.files.filter fun file => file.1 != place }

def addDirectory (tree : FileTree) (path : SourcePath) : FileTree :=
  { tree with directories := tree.names path :: tree.directories }

/-- The path of a place from the root. -/
def pathOf (names : List String) : SourcePath := ⟨"/" ++ "/".intercalate names⟩

/-- Name of a file directly inside a directory. -/
def childName? (directory file : List String) : Option String :=
  if file.dropLast == directory then file.getLast? else none

def filesIn? (tree : FileTree) (path : SourcePath) (extension : String) :
    Option (List SourcePath) :=
  match tree.locate path with
  | .error _ => none
  | .ok directory =>
    if tree.hasDirectory directory then
      let inside := (tree.files.filterMap fun file => childName? directory file.1).map fun name =>
        path.join ⟨name⟩
      some ((inside.filter (·.hasExtension extension)).mergeSort fun first second =>
        (first.order second).isLE)
    else none

def fileSystem (tree : FileTree) : FileSystem where
  files := tree.files.map fun file => pathOf file.1
  normal path :=
    match tree.locate path with
    | .ok names => pathOf names
    | .error _ => path.normalized
  isFile path := (tree.locate path).toOption.any tree.hasFile
  isDirectory path := (tree.locate path).toOption.any tree.hasDirectory
  filesIn? := tree.filesIn?
  readLines path :=
    match tree.readText path with
    | .ok text => .ok (Text.lines text)
    | .error error => .error error.message

end FileTree

end DecisionLang
