import DecisionLang.Moment
import DecisionLang.Number.Shortest
import DecisionLang.Vocabulary.Keyword
import DecisionLang.Vocabulary.Operator

/-!
# Tokens

Every bare word is one kind of token, reserved or not: whether a word is reserved is a question
for the reader of the line, since `Income`, `number` and `if` are scanned alike.
-/

namespace DecisionLang

inductive TokenKind where
  | word (text : String)
  /-- Names joined by points, two or more. -/
  | path (parts : List String)
  | number (value : Number)
  /-- Text between double quotes, without them. -/
  | quoted (text : String)
  | boolean (value : Bool)
  | moment (value : Moment)
  | operator (sign : Operator)
  /-- Text after two slashes, trimmed. -/
  | comment (text : String)
  deriving DecidableEq

/-- A token with the column of its first character, counted from one. -/
structure Token where
  kind : TokenKind
  column : Nat
  deriving DecidableEq

namespace TokenKind

def isLiteral : TokenKind → Bool
  | number _ | quoted _ | boolean _ | moment _ => true
  | _ => false

/-- Sort of a token, as diagnostics name it. -/
def describe : TokenKind → String
  | word _ => "keyword"
  | path _ => "member access"
  | number _ => "number literal"
  | quoted _ => "quoted literal"
  | boolean _ => "boolean literal"
  | moment _ => "date literal"
  | operator _ => "operator"
  | comment _ => "comment"

def text : TokenKind → String
  | word text => text
  | path parts => ".".intercalate parts
  | number value => value.text
  | quoted text => "\"" ++ text ++ "\""
  | boolean value => if value then "true" else "false"
  | moment value => value.text
  | operator sign => sign.spelling
  | comment text => "// " ++ text

end TokenKind

namespace Token

def text (token : Token) : String := token.kind.text

def word? (token : Token) : Option String :=
  match token.kind with
  | .word text => some text
  | _ => none

def keyword? (token : Token) : Option Keyword :=
  token.word?.bind Keyword.ofSpelling?

/-- A word that is not reserved. -/
def name? (token : Token) : Option String :=
  token.word?.filter fun word => (Keyword.ofSpelling? word).isNone

def operator? (token : Token) : Option Operator :=
  match token.kind with
  | .operator sign => some sign
  | _ => none

def path? (token : Token) : Option (List String) :=
  match token.kind with
  | .path parts => some parts
  | _ => none

def quoted? (token : Token) : Option String :=
  match token.kind with
  | .quoted text => some text
  | _ => none

def isKeyword (keyword : Keyword) (token : Token) : Bool := token.keyword? == some keyword

def isOperator (operator : Operator) (token : Token) : Bool := token.operator? == some operator

def opens (token : Token) : Bool := token.operator?.any Operator.opens

def closes (token : Token) : Bool := token.operator?.any Operator.closes

/-- A name is never a reserved word. -/
theorem keyword?_eq_none_of_name? {token : Token} {name : String} (h : token.name? = some name) :
    token.keyword? = none := by
  unfold name? at h
  unfold keyword?
  cases hw : token.word? with
  | none => rfl
  | some word =>
    rw [hw] at h
    simp only [Option.filter_some] at h
    split at h
    · simpa using ‹(Keyword.ofSpelling? word).isNone = true›
    · cases h

end Token

end DecisionLang
