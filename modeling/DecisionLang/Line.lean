import DecisionLang.Diagnostic.Fault
import DecisionLang.Token.Slice

/-!
# Source lines

A line of a document is its text, its tokens without a trailing comment, and that comment. Its
depth comes from the tabs and spaces it starts with: a tab is one level, `width` spaces are one.
-/

namespace DecisionLang

structure Line where
  file : String
  /-- Counted from zero. -/
  index : Nat
  text : String
  tokens : List Token
  comment : Option Token

/-- Tabs and spaces at the start of a line. -/
structure Margin where
  tabs : Nat
  spaces : Nat
  deriving DecidableEq

/-- Counts the tabs and spaces before the first other character. -/
def Margin.ofText : List Char → Margin
  | '\t' :: rest => let margin := ofText rest; { margin with tabs := margin.tabs + 1 }
  | ' ' :: rest => let margin := ofText rest; { margin with spaces := margin.spaces + 1 }
  | _ => ⟨0, 0⟩

namespace Line

/-- Counted from one. -/
def number (line : Line) : Nat := line.index + 1

def reference (line : Line) (column : Nat) : Reference := ⟨line.file, line.number, column⟩

def tokenReference (line : Line) (token : Token) : Reference := line.reference token.column

/-- Place of the first token, or of the comment of a line without tokens. -/
def start (line : Line) : Reference :=
  line.reference (((line.tokens.head?).or line.comment).elim 1 Token.column)

def isComment (token : Token) : Bool :=
  match token.kind with
  | .comment _ => true
  | _ => false

/-- Splits off a comment, which can only be the last token. -/
def ofTokens (file : String) (index : Nat) (text : String) (tokens : List Token) : Line :=
  match tokens.getLast? with
  | some last =>
    if isComment last then ⟨file, index, text, tokens.dropLast, some last⟩
    else ⟨file, index, text, tokens, none⟩
  | none => ⟨file, index, text, [], none⟩

def read (file : String) (index : Nat) (text : String) : Except Diagnostic Line :=
  match Token.scan text with
  | .ok tokens => .ok (ofTokens file index text tokens)
  | .error error => .error ((Fault.scan error).located ⟨file, index + 1, error.column⟩)

/-- Neither tokens nor a comment. -/
def isEmpty (line : Line) : Bool := line.tokens.isEmpty && line.comment.isNone

/-- A comment and nothing else. -/
def isCommentOnly (line : Line) : Bool := line.tokens.isEmpty && line.comment.isSome

/-- Indentation depth; the leading spaces must be whole levels. A width of zero counts as one. -/
def depth (line : Line) (width : Nat) : Except Diagnostic Nat :=
  let margin := Margin.ofText line.text.toList
  let width := max width 1
  if margin.spaces % width = 0 then .ok (margin.tabs + margin.spaces / width)
  else
    .error ((Fault.indentation
      s!"{margin.spaces} spaces is not a multiple of {width}.").located (line.reference 1))

end Line

end DecisionLang
