import DecisionLang.Text.Lines

/-!
# Paths of source files

Paths are texts with slashes, read as Unix does: empty pieces and single points mean nothing,
except a single point that starts a relative path. What a path means lies in its components, but
its text is kept as written, since places in a source are printed with it.

`normalized` resolves points without looking at any file. Looking at files is up to a `FileSystem`.
-/

namespace DecisionLang

structure SourcePath where
  text : String
  deriving DecidableEq

inductive PathComponent where
  | root | current | parent
  | normal (name : String)
  deriving DecidableEq

namespace PathComponent

def isNormal : PathComponent → Bool
  | normal _ => true
  | _ => false

def text : PathComponent → String
  | root => "/"
  | current => "."
  | parent => ".."
  | normal name => name

def rank : PathComponent → Nat
  | root => 0
  | current => 1
  | parent => 2
  | normal _ => 3

/-- Names are ordered by their characters and stand after all else. -/
def order : PathComponent → PathComponent → Ordering
  | normal first, normal second => compare first second
  | first, second => compare first.rank second.rank

end PathComponent

namespace SourcePath

/-- How a path starts, and the pieces between the slashes of the rest. -/
structure Pieces where
  start : Option PathComponent
  pieces : List String

def toPieces (path : SourcePath) : Pieces :=
  match (Text.splitAt '/' path.text.toList).map String.ofList with
  | "" :: (piece :: pieces) => ⟨some .root, piece :: pieces⟩
  | "." :: pieces => ⟨some .current, pieces⟩
  | pieces => ⟨none, pieces⟩

/-- A piece that means nothing. -/
def isIdle (piece : String) : Bool := piece.isEmpty || piece == "."

def Pieces.components (parts : Pieces) : List PathComponent :=
  parts.start.toList ++ (parts.pieces.filter (!isIdle ·)).map fun piece =>
    if piece == ".." then .parent else .normal piece

/-- Leaves out idle pieces at the end. -/
def Pieces.trimmed (parts : Pieces) : Pieces :=
  { parts with pieces := (parts.pieces.reverse.dropWhile isIdle).reverse }

def Pieces.text (parts : Pieces) : String :=
  let rest := "/".intercalate parts.pieces
  match parts.start with
  | some .root => "/" ++ rest
  | some .current => if parts.pieces.isEmpty then "." else "./" ++ rest
  | _ => rest

def components (path : SourcePath) : List PathComponent := path.toPieces.components

def isAbsolute (path : SourcePath) : Bool := path.text.toList.head? == some '/'

/-- The path without its last component, if it has one that can be left out. -/
def parent? (path : SourcePath) : Option SourcePath :=
  let parts := path.toPieces.trimmed
  if parts.pieces.isEmpty then
    match parts.start with
    | some .current => some ⟨""⟩
    | _ => none
  else some ⟨({ parts with pieces := parts.pieces.dropLast } : Pieces).trimmed.text⟩

/-- Name of the file or directory that the path leads to, if it ends in a name. -/
def fileName? (path : SourcePath) : Option String :=
  match path.components.getLast? with
  | some (.normal name) => some name
  | _ => none

/-- What follows the last point of the file name. A point that starts the name does not count. -/
def extension? (path : SourcePath) : Option String :=
  path.fileName?.bind fun name =>
    let characters := name.toList
    let extension := characters.reverse.takeWhile (· != '.')
    if extension.length + 1 < characters.length then some (String.ofList extension.reverse)
    else none

def hasExtension (path : SourcePath) (extension : String) : Bool :=
  path.extension? == some extension

/-- Gives a file name without an extension one. An empty extension adds no point. Extensions that
contain a separator are outside the model: they are no part of a file name. -/
def withDefaultExtension (path : SourcePath) (extension : String) : SourcePath :=
  if path.extension?.isSome || path.fileName?.isNone then path
  else ⟨path.toPieces.trimmed.text ++ if extension.isEmpty then "" else "." ++ extension⟩

/-- A path relative to a directory. -/
def join (directory path : SourcePath) : SourcePath :=
  if path.isAbsolute then path
  else if directory.text.isEmpty || directory.text.toList.getLast? == some '/' then
    ⟨directory.text ++ path.text⟩
  else ⟨directory.text ++ "/" ++ path.text⟩

/-- The paths to all that a path passes, itself last. -/
def passed (path : SourcePath) : List SourcePath :=
  let pieces := Text.splitAt '/' path.text.toList
  (List.range pieces.length).map fun last =>
    ⟨String.ofList (['/'].intercalate (pieces.take (last + 1)))⟩

/-- Adds a component to resolved ones: a step up takes a name back, if there is one. -/
def resolve (resolved : List PathComponent) : PathComponent → List PathComponent
  | .current => resolved
  | .parent =>
    if resolved.getLast?.any PathComponent.isNormal then resolved.dropLast
    else resolved ++ [.parent]
  | other => resolved ++ [other]

def ofComponents : List PathComponent → SourcePath
  | .root :: components => ⟨"/" ++ "/".intercalate (components.map PathComponent.text)⟩
  | components => ⟨"/".intercalate (components.map PathComponent.text)⟩

/-- The path without points, as far as that can be told from the path alone. -/
def normalized (path : SourcePath) : SourcePath :=
  ofComponents (path.components.foldl resolve [])

/-- Whether a path leads to a directory or into it. -/
def startsWith (path directory : SourcePath) : Bool :=
  directory.components.isPrefixOf path.components

def order (first second : SourcePath) : Ordering :=
  List.compareLex PathComponent.order first.components second.components

end SourcePath

/-- What reading a document needs of a file system. Files are told apart by the normal forms of
their paths; every file that exists has its normal form among `files`. -/
structure FileSystem where
  /-- Normal forms of the paths of all files. -/
  files : List SourcePath
  normal : SourcePath → SourcePath
  isFile : SourcePath → Bool
  isDirectory : SourcePath → Bool
  /-- Files with the given extension directly inside a directory, in the order of their paths. -/
  filesIn? : SourcePath → String → Option (List SourcePath)
  /-- The lines of a file, or why they cannot be read. -/
  readLines : SourcePath → Except String (List String)

end DecisionLang
