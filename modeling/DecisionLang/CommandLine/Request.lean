import DecisionLang.Files.SourcePath
import DecisionLang.Number
import DecisionLang.Reading.Inclusion

/-!
# Requests on the command line

Arguments are told apart before they are given a meaning: an option takes the argument after it as
its value whatever that looks like, and after two hyphens nothing is an option. A request is then
read from front to back, so that a question for help or for the version is answered unless
something before it is wrong. The word for help takes the name of a command and nothing else, not
even the two hyphens.

The width of indentation can stand before or after the name of the command, at most once in each
place; the one after it counts.
-/

namespace DecisionLang

/-- What is to be done with a file. -/
inductive Command where
  /-- Report all faults and the outcomes of the scenarios. -/
  | check
  | tokens
  /-- List the declarations, dependencies first. -/
  | order (asJson : Bool)
  | tree
  deriving DecidableEq

inductive Argument where
  /-- A width of indentation; none if the value is no number. -/
  | indentWidth (value : Option Nat)
  | json
  | help
  | version
  /-- The name of a command, or a file. -/
  | word (text : String)
  /-- Two hyphens, after which nothing is an option. -/
  | endOfOptions
  /-- An argument after two hyphens, which names no command. -/
  | operand (text : String)
  | unknown
  deriving DecidableEq

structure Invocation where
  command : Command
  file : SourcePath
  indentWidth : Nat
  deriving DecidableEq

inductive Request where
  | perform (invocation : Invocation)
  | help
  | version
  deriving DecidableEq

namespace Command

def ofName? : String → Option Command
  | "check" => some check
  | "tokens" => some tokens
  | "order" => some (order false)
  | "tree" => some tree
  | _ => none

/-- The command with its answer as JSON, if it has one. -/
def asJson? : Command → Option Command
  | order false => some (order true)
  | _ => none

end Command

namespace Argument

/-- Numbers beyond this do not fit into a machine word. -/
def countLimit : Nat := Nat.pow 2 64

/-- A count in decimal digits. A plus sign may stand before it. -/
def readCount (text : List Char) : Option Nat :=
  let digits := if text.head? = some '+' then text.tail else text
  if !digits.isEmpty && digits.all Char.isDigit && Number.digitsValue digits < countLimit then
    some (Number.digitsValue digits)
  else none

/-- An argument that is neither the width nor the value of it. -/
def ofText (text : String) : Argument :=
  match text.toList with
  | '-' :: '-' :: name =>
    let width := "indent-width=".toList
    if name = "json".toList then json
    else if name = "help".toList then help
    else if name = "version".toList then version
    else if width.isPrefixOf name then indentWidth (readCount (name.drop width.length))
    else unknown
  | '-' :: 'h' :: _ => help
  | '-' :: 'V' :: _ => version
  | '-' :: _ :: _ => unknown
  | _ => word text

def ofTexts : List String → List Argument
  | [] => []
  | ["--indent-width"] => [unknown]
  | "--indent-width" :: value :: texts => indentWidth (readCount value.toList) :: ofTexts texts
  | "--" :: texts => endOfOptions :: texts.map operand
  | text :: texts => ofText text :: ofTexts texts

end Argument

/-- What has been read after the name of a command. -/
structure PartialInvocation where
  command : Command
  file : Option String := none
  indentWidth : Option Nat := none

namespace PartialInvocation

/-- Takes the file, once. -/
def takeFile? (given : PartialInvocation) (text : String) : Option PartialInvocation :=
  if given.file.isSome || text.isEmpty then none else some { given with file := some text }

/-- Takes one argument that asks neither for help nor for the version. -/
def take? (given : PartialInvocation) : Argument → Option PartialInvocation
  | .indentWidth value =>
    if given.indentWidth.isSome then none
    else value.map fun width => { given with indentWidth := some width }
  | .json => given.command.asJson?.map fun command => { given with command }
  | .word text | .operand text => given.takeFile? text
  | .endOfOptions => some given
  | .help | .version | .unknown => none

/-- Reads the arguments after the name of a command; `width` stood before it. -/
def read? (width : Option Nat) (given : PartialInvocation) : List Argument → Option Request
  | [] => given.file.map fun file =>
    .perform ⟨given.command, ⟨file⟩,
      (given.indentWidth.or width).getD ({} : ReadOptions).indentWidth⟩
  | .help :: _ => some .help
  | argument :: arguments => (given.take? argument).bind fun given => given.read? width arguments

end PartialInvocation

namespace Request

/-- Whether the arguments after the word for help ask for help on something that exists. -/
def isHelpTopic : List Argument → Bool
  | [] => true
  | [.word name] => name == "help" || (Command.ofName? name).isSome
  | _ => false

def read? (width : Option Nat) : List Argument → Option Request
  | .help :: _ => some .help
  | .version :: _ => some .version
  | .indentWidth (some value) :: arguments =>
    if width.isSome then none else read? (some value) arguments
  | .word name :: arguments =>
    if name = "help" then if isHelpTopic arguments then some .help else none
    else (Command.ofName? name).bind fun command =>
      ({ command } : PartialInvocation).read? width arguments
  | _ => none

/-- The request that the arguments of the command line make, if they make one. -/
def ofArguments? (arguments : List String) : Option Request :=
  read? none (Argument.ofTexts arguments)

end Request

end DecisionLang
