import DecisionLang.Line
import DecisionLang.Token.Scan

/-!
# Lines with content

What is known about a line before anybody receives it: whether it is blank or a comment, whether it
can be scanned, and the depth that its margin gives. All of it depends on the text alone.
-/

namespace DecisionLang

namespace Line

/-- Tokens of a line with a comment and nothing else. -/
def isOnlyComment : List Token → Bool
  | [token] => isComment token
  | _ => false

/-- Neither blank nor only a comment. A line that cannot be scanned is no comment. -/
def isContent (text : String) : Bool :=
  !text.toList.all Text.isBlank &&
    match Token.scan text with
    | .ok tokens => !isOnlyComment tokens
    | .error _ => true

def scans (text : String) : Bool := (Token.scan text).isOk

/-- Depth from the tabs and spaces at the start of a text. -/
def marginDepth? (width : Nat) (text : String) : Option Nat :=
  let margin := Margin.ofText text.toList
  let width := max width 1
  if margin.spaces % width = 0 then some (margin.tabs + margin.spaces / width) else none

/-- Depth of a line with content, if it has a valid one. -/
def contentDepth? (width : Nat) (text : String) : Option Nat :=
  if isContent text then marginDepth? width text else none

/-- Depth of a line with content that can be scanned. -/
def scannedDepth? (width : Nat) (text : String) : Option Nat :=
  if scans text then contentDepth? width text else none

variable {file text : String} {index width : Nat} {line : Line}

theorem exists_tokens_of_read (h : Line.read file index text = .ok line) :
    ∃ tokens, Token.scan text = .ok tokens ∧ line = ofTokens file index text tokens := by
  unfold Line.read at h
  split at h
  · next tokens htokens =>
    cases h
    exact ⟨tokens, htokens, rfl⟩
  · cases h

theorem ofTokens_place (file : String) (index : Nat) (text : String) (tokens : List Token) :
    (ofTokens file index text tokens).text = text ∧
      (ofTokens file index text tokens).file = file ∧
      (ofTokens file index text tokens).number = index + 1 := by
  unfold ofTokens
  split
  · split <;> exact ⟨rfl, rfl, rfl⟩
  · exact ⟨rfl, rfl, rfl⟩

theorem ofTokens_append_singleton (init : List Token) (last : Token) :
    ofTokens file index text (init ++ [last]) =
      if isComment last then ⟨file, index, text, init, some last⟩
      else ⟨file, index, text, init ++ [last], none⟩ := by
  simp only [ofTokens, List.getLast?_append, List.getLast?_singleton, Option.some_or,
    List.dropLast_concat]

theorem isOnlyComment_append_singleton (init : List Token) (last : Token) :
    isOnlyComment (init ++ [last]) = (init.isEmpty && isComment last) := by
  cases init with
  | nil => rfl
  | cons first init => cases init <;> rfl

theorem isCommentOnly_ofTokens (tokens : List Token) :
    (ofTokens file index text tokens).isCommentOnly = isOnlyComment tokens := by
  rcases tokens.eq_nil_or_concat with rfl | ⟨init, last, rfl⟩
  · rfl
  · rw [List.concat_eq_append, ofTokens_append_singleton, isOnlyComment_append_singleton]
    split <;> simp_all [isCommentOnly]

theorem tokens_ofTokens_ne_nil {tokens : List Token} (hne : tokens ≠ [])
    (hcomment : isOnlyComment tokens = false) : (ofTokens file index text tokens).tokens ≠ [] := by
  rcases tokens.eq_nil_or_concat with rfl | ⟨init, last, rfl⟩
  · exact absurd rfl hne
  · rw [List.concat_eq_append, isOnlyComment_append_singleton] at hcomment
    rw [List.concat_eq_append, ofTokens_append_singleton]
    split <;> simp_all

theorem marginDepth?_of_depth {depth : Nat} (h : line.depth width = .ok depth) :
    marginDepth? width line.text = some depth := by
  unfold Line.depth at h
  dsimp only at h
  split at h
  · next heven =>
    cases h
    exact if_pos heven
  · cases h

theorem marginDepth?_eq_none_of_depth {diagnostic : Diagnostic}
    (h : line.depth width = .error diagnostic) :
    marginDepth? width line.text = none := by
  unfold Line.depth at h
  dsimp only at h
  split at h
  · cases h
  · next hodd => exact if_neg hodd

end Line

end DecisionLang
