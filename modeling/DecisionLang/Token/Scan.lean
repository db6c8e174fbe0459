import DecisionLang.Number
import DecisionLang.Token

/-!
# Scanning a line into tokens

A line is scanned on its own. White space separates tokens and belongs to none; it is what has the
Unicode property, of which Core's `Char.isWhitespace` knows four characters only. Two slashes start
a comment that runs to the end of the line. `scanToken` reads the token at the start of a text and
says how many characters it takes; `scan` repeats it and stops at the first fault.

A minus directly before a digit belongs to a number only where a binary minus cannot stand: at the
start of a line, or after an operator that does not close a group.
-/

namespace DecisionLang

namespace Text

/-- Characters with the Unicode property `White_Space`, twenty-five in all. -/
def isBlank (c : Char) : Bool :=
  let n := c.toNat
  (9 ≤ n && n ≤ 13) || n == 0x20 || n == 0x85 || n == 0xA0 || n == 0x1680 ||
    (0x2000 ≤ n && n ≤ 0x200A) || n == 0x2028 || n == 0x2029 || n == 0x202F || n == 0x205F ||
    n == 0x3000

/-- The text without white space at its end. -/
def trimEnd (text : List Char) : List Char := (text.reverse.dropWhile isBlank).reverse

/-- The text without white space at both ends. -/
def trim (text : List Char) : List Char := trimEnd (text.dropWhile isBlank)

end Text

/-- Why no token starts at a place. -/
inductive ScanFault where
  | invalidCharacter (found : Char)
  | unclosedQuote
  | unclosedDate
  | invalidNumber (text : String)
  | invalidPath (text : String)
  | invalidDate (text : String) (fault : MomentFault)
  deriving DecidableEq

/-- A fault and the column where the offending token starts. -/
structure ScanError where
  fault : ScanFault
  column : Nat
  deriving DecidableEq

namespace ScanError

def message (error : ScanError) : String :=
  match error.fault with
  | .invalidCharacter found => s!"Invalid character at {error.column}: '{found}'"
  | .unclosedQuote => s!"Closing quote expected for literal starting at {error.column}"
  | .unclosedDate => s!"Closing quote expected for date literal starting at {error.column}"
  | .invalidNumber text => s!"Invalid number token '{text}'"
  | .invalidPath text => s!"Invalid member access token '{text}'"
  | .invalidDate text fault => fault.message text

end ScanError

namespace Token

def isWordStart (c : Char) : Bool := c.isAlpha || c == '_'

def isWordPart (c : Char) : Bool := c.isAlphanum || c == '_'

/-- Length of the word at the start of a text, points included. Two points in a row end it: they
start a spread. -/
def wordLength : List Char → Nat
  | [] => 0
  | c :: cs =>
    if c == '.' && cs.head? == some '.' then 0
    else if isWordPart c || c == '.' then wordLength cs + 1
    else 0

/-- Length of the unsigned decimal at the start of a text. A point belongs to it only before a
digit, and only the first one. -/
def decimalLength (pointAllowed : Bool) : List Char → Nat
  | [] => 0
  | c :: cs =>
    if c.isDigit then decimalLength pointAllowed cs + 1
    else if c == '.' && pointAllowed && cs.head?.any Char.isDigit then decimalLength false cs + 1
    else 0

/-- Whether a minus after this token can be the sign of a number. -/
def allowsSign : Option TokenKind → Bool
  | none => true
  | some (.operator sign) => !sign.closes
  | some _ => false

/-- A scanned token kind and how many characters it takes after its first one. -/
structure Scanned where
  kind : TokenKind
  more : Nat

/-- A quoted text; `text` is what follows the opening quote. -/
def scanQuoted (text : List Char) : Except ScanFault Scanned :=
  let content := text.takeWhile (· != '"')
  if content.length < text.length then
    .ok ⟨.quoted (String.ofList content), content.length + 1⟩
  else .error .unclosedQuote

/-- A date; `text` is what follows the opening quote. -/
def scanDate (text : List Char) : Except ScanFault Scanned :=
  let content := text.takeWhile (· != '"')
  if content.length < text.length then
    match Moment.read content with
    | .ok moment => .ok ⟨.moment moment, content.length + 2⟩
    | .error fault => .error (.invalidDate (String.ofList content) fault)
  else .error .unclosedDate

/-- A number; `text` starts with its minus or its first digit. -/
def scanNumber (text : List Char) : Except ScanFault Scanned :=
  let sign := if text.head? = some '-' then 1 else 0
  let length := sign + decimalLength true (text.drop sign)
  let rest := text.drop length
  if rest.head?.any fun c => isWordPart c || c == '.' then
    .error (.invalidNumber (String.ofList (text.take (length + wordLength rest))))
  else .ok ⟨.number (Number.ofDecimal (text.take length)), length - 1⟩

/-- Whether a part of a dotted word can stand as a name. -/
def isPathPart (part : List Char) : Bool := part.head?.any isWordStart

/-- A word, a path or a boolean; `text` starts with a letter or an underscore. -/
def scanWord (text : List Char) : Except ScanFault Scanned :=
  let word := text.take (wordLength text)
  let more := word.length - 1
  if word.contains '.' then
    let parts := Text.splitAt '.' word
    if parts.all isPathPart then .ok ⟨.path (parts.map String.ofList), more⟩
    else .error (.invalidPath (String.ofList word))
  else
    match String.ofList word with
    | "true" => .ok ⟨.boolean true, more⟩
    | "false" => .ok ⟨.boolean false, more⟩
    | other => .ok ⟨.word other, more⟩

def scanOperator (c : Char) (text : List Char) : Except ScanFault Scanned :=
  match Operator.longestAtStart? text with
  | some operator => .ok ⟨.operator operator, operator.spelling.length - 1⟩
  | none => .error (.invalidCharacter c)

/-- The token at the start of `c :: cs`, where `c` is not white space; `previous` is the kind of
the token before it. -/
def scanToken (previous : Option TokenKind) (c : Char) (cs : List Char) :
    Except ScanFault Scanned :=
  if c == '/' && cs.head? == some '/' then
    .ok ⟨.comment (String.ofList (Text.trim (cs.drop 1))), cs.length⟩
  else if c == '"' then scanQuoted cs
  else if c == 'd' && cs.head? == some '"' then scanDate (cs.drop 1)
  else if c.isDigit || (c == '-' && cs.head?.any Char.isDigit && allowsSign previous) then
    scanNumber (c :: cs)
  else if isWordStart c then scanWord (c :: cs)
  else scanOperator c (c :: cs)

/-- Tokens of a text whose first character stands in the given column. -/
def scanFrom (column : Nat) (previous : Option TokenKind) : List Char →
    Except ScanError (List Token)
  | [] => .ok []
  | c :: cs =>
    if Text.isBlank c then scanFrom (column + 1) previous cs
    else
      match scanToken previous c cs with
      | .error fault => .error ⟨fault, column⟩
      | .ok ⟨kind, more⟩ =>
        match scanFrom (column + 1 + more) (some kind) (cs.drop more) with
        | .error error => .error error
        | .ok tokens => .ok (⟨kind, column⟩ :: tokens)
termination_by text => text.length
decreasing_by
  all_goals
    simp only [List.length_drop, List.length_cons]
    omega

/-- Tokens of a line. -/
def scan (line : String) : Except ScanError (List Token) :=
  scanFrom 1 none line.toList

end Token

end DecisionLang
