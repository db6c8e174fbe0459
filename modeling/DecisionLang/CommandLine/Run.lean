import DecisionLang.CommandLine.Request
import DecisionLang.Compile
import DecisionLang.Files.FileTree
import DecisionLang.Text.Json
import DecisionLang.Tree.Outline

/-!
# Running requests

A run reads files and answers with what to print and an exit code: zero if all is well, one if
something is wrong with the file, two if the request makes no sense. Documents are read to their
end whatever faults they have.
-/

namespace DecisionLang

/-- What a run prints, and its exit code. -/
structure RunResult where
  code : Nat := 0
  out : String := ""
  err : String := ""
  deriving DecidableEq

namespace RunResult

/-- Lines of a text, each ended. -/
def unlines (lines : List String) : String := String.join (lines.map (· ++ "\n"))

def ofLines (lines : List String) : RunResult := { out := unlines lines }

/-- A failure whose message follows the lines that were printed before it. -/
def failure (message : String) (lines : List String) : RunResult :=
  ⟨1, unlines lines, message ++ "\n"⟩

end RunResult

namespace FileTree

/-- Most bytes in a source file. -/
def sourceLimit : Nat := 100 * 1024 * 1024

/-- The text of a source file, or why it is not read. -/
def readSource (tree : FileTree) (file : SourcePath) : Except String String :=
  match tree.locate file with
  | .error error => .error s!"Cannot access file '{file.text}': {error.message}"
  | .ok names =>
    let size := (tree.content? names).elim 0 ByteArray.size
    if sourceLimit < size then
      .error s!"Source file '{file.text}' is too large ({size} bytes, max {sourceLimit} bytes)"
    else
      match tree.readText file with
      | .error error => .error s!"Error reading file '{file.text}': {error.message}"
      | .ok text => .ok text

end FileTree

namespace ScenarioOutcome

/-- An outcome with the name of the scenario. -/
def report (name : String) : ScenarioOutcome → List String
  | run => [s!"scenario {name}: ready to run"]
  | matched => [s!"scenario {name}: expected errors logged"]
  | unmatched messages => s!"scenario {name}: failed" :: messages.map ("  " ++ ·)

end ScenarioOutcome

namespace Compiled

def check (compiled : Compiled) (file : SourcePath) : RunResult :=
  let outcomes := compiled.outcomes.flatMap fun (name, outcome) => outcome.report name
  if compiled.log.hasErrors then
    let log := String.ofList (Text.trimEnd compiled.log.text.toList)
    let count := compiled.log.errors.length
    .failure s!"{log}\n{count} error(s) in '{file.text}'" outcomes
  else
    let count := compiled.document.declarations.length
    .ofLines (outcomes ++ [s!"✓ {count} declarations checked"])

/-- The declarations in order, none if there are cycles, and then the names on cycles. -/
def orderLines (order : List Declaration) (circular : List String) : List String :=
  let names := ", ".intercalate circular
  order.map (fun decl => s!"{decl.keyword.spelling} {decl.name}") ++
    if circular.isEmpty then [] else [s!"circular references: {names}"]

/-- The same as JSON. -/
def orderJson (order : List Declaration) (circular : List String) : JsonValue :=
  .record [
    ("circularReferences", .list (circular.map .text)),
    ("order", .list (order.map fun decl =>
      .record [("kind", .text (Node.ofDeclaration decl).kindText), ("name", .text decl.name)]))]

def order (compiled : Compiled) (asJson : Bool) : RunResult :=
  let order := compiled.sorted?.getD []
  let circular := compiled.graph.circular
  let lines :=
    if asJson then [(orderJson order circular).layout 0] else orderLines order circular
  { RunResult.ofLines lines with code := if circular.isEmpty then 0 else 1 }

def outline (compiled : Compiled) : RunResult :=
  .ofLines (compiled.document.declarations.flatMap fun decl =>
    (Node.ofDeclaration decl).outline 0)

end Compiled

namespace Token

/-- A line with tokens after its number, which has room for four digits. -/
def listing (number : Nat) (tokens : List Token) : String :=
  let digits := toString number
  let margin := String.ofList (List.replicate (4 - digits.length) ' ')
  let texts := " ".intercalate (tokens.map fun token => token.kind.text)
  s!"{margin}{digits}: {texts}"

/-- Lists the tokens of all lines; lines with faults are reported together at the end. -/
def listLines (file : SourcePath) (lines : List String) : RunResult :=
  let scanned := (lines.map Token.scan).zipIdx 1
  let listed := scanned.filterMap fun
    | (.ok (token :: tokens), number) => some (listing number (token :: tokens))
    | _ => none
  let faults := scanned.filterMap fun
    | (.error error, number) =>
      some s!"{file.text}({number}, {error.column}): {error.message}"
    | _ => none
  if faults.isEmpty then .ofLines listed
  else .failure (String.ofList (Text.trimEnd ("\n".intercalate faults).toList)) listed

end Token

namespace Invocation

def readOptions (invocation : Invocation) : ReadOptions := { indentWidth := invocation.indentWidth }

/-- The document of an invocation, with all that it includes. -/
def compile (invocation : Invocation) (tree : FileTree) (text : String) :
    Except CompileFailure Compiled :=
  Dialect.compileIncluding {} { reading := invocation.readOptions, tolerant := true }
    tree.fileSystem invocation.file.text (Text.lines text)

/-- Answers from the document of an invocation. -/
def fromDocument (invocation : Invocation) (tree : FileTree) (text : String)
    (answer : Compiled → RunResult) : RunResult :=
  match invocation.compile tree text with
  | .ok compiled => answer compiled
  | .error failure => .failure failure.message []

def run (invocation : Invocation) (tree : FileTree) : RunResult :=
  if invocation.indentWidth = 0 then
    { code := 2, err := "Error: --indent-width must be at least 1\n" }
  else
    match tree.readSource invocation.file with
    | .error message => .failure message []
    | .ok text =>
      match invocation.command with
      | .check => invocation.fromDocument tree text (·.check invocation.file)
      | .tokens => Token.listLines invocation.file (Text.lines text)
      | .order asJson => invocation.fromDocument tree text (·.order asJson)
      | .tree => invocation.fromDocument tree text Compiled.outline

/-- The files and directories that a run asks for, as far as `tree` tells: the file itself, and
all that is included by files in the tree. -/
def places (invocation : Invocation) (tree : FileTree) : List SourcePath :=
  let options := invocation.readOptions
  let document := match tree.readText invocation.file with
    | .ok text =>
      (Progress.readIncluding Grammar.standard options tree.fileSystem invocation.file.text
        (Text.lines text)).document
    | .error _ => {}
  invocation.file :: document.inclusions.flatMap fun inclusion =>
    [inclusion.target, inclusion.target.withDefaultExtension options.fileExtension]

end Invocation

namespace Request

def versionText : String := "lexy 0.1.0\n"

def helpText : String := RunResult.unlines [
  "Parse, validate and order Lexy documents",
  "",
  "Usage: lexy [OPTIONS] <COMMAND> <FILE>",
  "",
  "Commands:",
  "  check   Parse and validate a document, printing every diagnostic",
  "  tokens  Print the tokens of every line",
  "  order   Print the declarations in dependency order (--json: as JSON)",
  "  tree    Print the node tree",
  "",
  "Options:",
  "      --indent-width <N>  Spaces per indentation level [default: 2]",
  "  -h, --help              Print help",
  "  -V, --version           Print version"]

def run (tree : FileTree) : Request → RunResult
  | perform invocation => invocation.run tree
  | help => { out := helpText }
  | version => { out := versionText }

/-- Runs the request that the arguments make. Arguments that make none are answered with the help
text. -/
def runArguments (tree : FileTree) (arguments : List String) : RunResult :=
  match ofArguments? arguments with
  | some request => request.run tree
  | none => { code := 2, err := helpText }

end Request

end DecisionLang
