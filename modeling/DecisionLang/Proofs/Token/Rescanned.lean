import DecisionLang.Proofs.Token.Standing
import Mathlib.Data.List.DropRight

/-!
# Tokens scanned again

What a token is depends on little of what stands around it: on the character that follows, which must
end the token, and for a negative number on the token before it. `TokenKind.Rescans` says that the
text of a kind of token is scanned as this kind under these conditions; every token that has been
scanned does, a number if its text reads back (`Token.rescans_of_scanToken`): the text of a token
has the form of its kind, whatever the text was from which it was scanned (`TokenKind.form_text`).
-/

namespace DecisionLang

namespace TokenKind

/-- Brackets and separators of arguments, which are scanned whatever follows. -/
def isMark : TokenKind → Bool
  | operator sign => sign.role == .grouping || sign == .argumentSeparator
  | _ => false

end TokenKind

namespace Token

def isBreak (c : Char) : Bool := [' ', '(', ')', '[', ']', ','].contains c

/-- What follows ends the token before it. -/
def Ends (text : List Char) : Prop := ∀ c ∈ text.head?, isBreak c = true

variable {c : Char} {text rest : List Char}

theorem isBreak_iff :
    isBreak c = true ↔ c = ' ' ∨ c = '(' ∨ c = ')' ∨ c = '[' ∨ c = ']' ∨ c = ',' := by
  simp [isBreak]

theorem not_isWordPart_of_isBreak (h : isBreak c = true) : isWordPart c = false := by
  rcases isBreak_iff.1 h with rfl | rfl | rfl | rfl | rfl | rfl <;> decide

theorem ne_of_isBreak (h : isBreak c = true) :
    c ≠ '.' ∧ c ≠ '"' ∧ c ≠ '/' ∧ c.isDigit = false := by
  rcases isBreak_iff.1 h with rfl | rfl | rfl | rfl | rfl | rfl <;> decide

theorem ends_nil : Ends [] := nofun

theorem ends_cons (h : isBreak c = true) : Ends (c :: text) := by
  intro d hd
  cases hd
  exact h

end Token

namespace TokenKind

open Token

variable {kind : TokenKind} {span rest : List Char} {previous : Option TokenKind}

/-- The text of this kind of token is scanned as it wherever a token can end and, for a negative
number, a sign can stand. -/
def Rescans (kind : TokenKind) : Prop :=
  ∃ c cs, kind.text.toList = c :: cs ∧ Text.isBlank c = false ∧
    ∀ previous rest, (kind.isNegative = true → Token.allowsSign previous = true) →
      (kind.isMark = true ∨ Token.Ends rest) →
        Token.scanToken previous c (cs ++ rest) = .ok ⟨kind, cs.length⟩

/-! ### Ends of tokens -/

theorem stopsWord_of_ends (h : Ends rest) : StopsWord rest := fun c hc =>
  ⟨not_isWordPart_of_isBreak (h c hc), fun heq => absurd heq (ne_of_isBreak (h c hc)).1⟩

/-- Operators that are no mark are followed by no character of a longer operator where they end. -/
theorem not_isBreak_of_mem_spelling {sign : Operator} (htwo : 2 ≤ sign.spelling.length) {c : Char}
    (hc : c ∈ sign.spelling.toList) : isBreak c = false := by
  have hall : (sign.spelling.toList.all fun c => !isBreak c) = true := by
    revert htwo
    cases sign <;> decide
  simpa using List.all_eq_true.1 hall c hc

theorem exists_isBreak_of_isMark {sign : Operator} (h : (operator sign).isMark = true) :
    ∃ c ∈ sign.spelling.toList, isBreak c = true := by
  apply List.any_eq_true.1
  revert h
  cases sign <;> decide

theorem stopsOperator_of_ends {sign : Operator} (hends : (operator sign).isMark = true ∨ Ends rest) :
    StopsOperator previous sign rest := by
  refine ⟨fun other hother => ?_, ?_, ?_⟩
  · by_contra hlonger
    have hpositive : 0 < sign.spelling.length := by cases sign <;> decide
    have htwo : 2 ≤ other.spelling.length := by omega
    have hlonger : sign.spelling.toList.length < other.spelling.toList.length := by
      rw [String.length_toList, String.length_toList]
      omega
    obtain ⟨more, hmore⟩ := List.prefix_of_prefix_length_le (List.prefix_append _ rest) hother
      (Nat.le_of_lt hlonger)
    rcases hends with hmark | hends
    · obtain ⟨c, hc, hbreak⟩ := exists_isBreak_of_isMark hmark
      rw [not_isBreak_of_mem_spelling htwo (hmore ▸ List.mem_append_left _ hc)] at hbreak
      cases hbreak
    · rw [← hmore, List.prefix_append_right_inj] at hother
      cases more with
      | nil => simp [← hmore] at hlonger
      | cons c more =>
        obtain ⟨others, rfl⟩ := hother
        have hbreak := hends c rfl
        rw [not_isBreak_of_mem_spelling htwo (hmore ▸ by simp)] at hbreak
        cases hbreak
  · rintro rfl hhead
    have hbreak := hends.resolve_left (by decide) _ hhead
    cases hbreak
  · rintro rfl _
    rw [Option.any_eq_false]
    intro c hc
    simpa using (ne_of_isBreak (hends.resolve_left (by decide) c hc)).2.2.2

/-- Where tokens can end, every token does but a comment. -/
theorem stops_of_ends (hcomment : kind.isComment = false) (hends : kind.isMark = true ∨ Ends rest) :
    kind.Stops previous rest := by
  cases kind with
  | word text =>
    have hends := hends.resolve_left Bool.false_ne_true
    exact ⟨stopsWord_of_ends hends, fun _ hquote => absurd rfl (ne_of_isBreak (hends _ hquote)).2.1⟩
  | boolean | path => exact stopsWord_of_ends (hends.resolve_left Bool.false_ne_true)
  | number =>
    have hends := hends.resolve_left Bool.false_ne_true
    exact fun c hc => ⟨not_isWordPart_of_isBreak (hends c hc), (ne_of_isBreak (hends c hc)).1⟩
  | quoted | moment => trivial
  | operator => exact stopsOperator_of_ends hends
  | comment => cases hcomment

/-- A comment ends where the text ends. -/
theorem stops_iff_of_isComment (h : kind.isComment = true) :
    kind.Stops previous rest ↔ rest = [] := by
  cases kind with
  | comment => exact Iff.rfl
  | _ => cases h

end TokenKind

namespace Text

variable {text : List Char}

theorem trim_cons_blank {c : Char} (h : isBlank c = true) : trim (c :: text) = trim text := by
  rw [trim, trim, List.dropWhile_cons_of_pos h]

theorem trim_trim (text : List Char) : trim (trim text) = trim text := by
  have hstart : (trim text).dropWhile isBlank = trim text := by
    have htrim : trim text <+: text.dropWhile isBlank := List.rdropWhile_prefix isBlank _
    rw [List.dropWhile_eq_self_iff]
    intro hlength
    have hhead := List.dropWhile_get_zero_not isBlank text (by have := htrim.length_le; omega)
    obtain ⟨rest, hrest⟩ := htrim
    simpa [← hrest, List.getElem_append_left hlength] using hhead
  rw [trim, hstart]
  exact List.rdropWhile_idempotent isBlank _

end Text

namespace TokenKind

open Token

variable {kind : TokenKind} {span rest : List Char} {previous : Option TokenKind}

theorem notMem_content (moment : Moment) : '"' ∉ moment.content := by
  simp [Moment.content, Moment.notMem_padded (show ('"').isDigit = false from rfl)]

theorem form_number {value : Number} (h : value.IsWritten) :
    (number value).Form value.text.toList := by
  obtain ⟨sign, hsign, htext⟩ : ∃ sign : List Char, (sign = [] ∨ sign = ['-']) ∧
      value.text.toList = sign ++ (Number.magnitudeText value.magnitude).toList := by
    cases hnegative : value.negative with
    | true => exact ⟨_, .inr rfl, by simp [Number.text, hnegative]⟩
    | false => exact ⟨_, .inl rfl, by simp [Number.text, hnegative]⟩
  have hform := Form.number hsign (Number.isDecimal_magnitudeText h.1)
  rwa [← htext, h.2] at hform

/-- The text of a token has the form of its kind, of a number if it reads back. -/
theorem form_text (h : kind.Form span)
    (hnumber : ∀ value, kind = .number value → value.IsWritten) : kind.Form kind.text.toList := by
  cases h with
  | word hword htrue hfalse =>
    rw [TokenKind.text, String.toList_ofList]
    exact .word hword htrue hfalse
  | boolean => exact .boolean
  | @path parts htwo hparts =>
    have htext : (path (parts.map String.ofList)).text.toList = ['.'].intercalate parts := by
      simp [TokenKind.text, String.toList_intercalate]
    rw [htext]
    exact .path htwo hparts
  | number => exact form_number (hnumber _ rfl)
  | @quoted content hquote =>
    have htext : (quoted (String.ofList content)).text.toList = '"' :: (content ++ ['"']) := by
      simp [TokenKind.text]
    rw [htext]
    exact .quoted hquote
  | @moment content value hquote hread =>
    have htext : (moment value).text.toList = 'd' :: '"' :: (value.content ++ ['"']) := by
      simp [TokenKind.text, Moment.text]
    rw [htext]
    exact .moment (notMem_content value) (Moment.read_content (Moment.isValid_of_read hread))
  | operator => exact .operator
  | @comment content =>
    have htext : (comment (String.ofList (Text.trim content))).text.toList =
        '/' :: '/' :: ' ' :: Text.trim content := by
      simp [TokenKind.text]
    have hform : (comment (String.ofList (Text.trim (' ' :: Text.trim content)))).Form
        ('/' :: '/' :: ' ' :: Text.trim content) := .comment
    rwa [Text.trim_cons_blank rfl, Text.trim_trim, ← htext] at hform

theorem rescans_of_form (h : kind.Form kind.text.toList) (hcomment : kind.isComment = false) :
    kind.Rescans := by
  obtain ⟨c, cs, htext, hblank⟩ := h.exists_cons
  refine ⟨c, cs, htext, hblank, fun previous rest hsign hends => ?_⟩
  exact scanToken_append ⟨htext ▸ h, hsign, stops_of_ends hcomment hends⟩

theorem rescans_operator (sign : Operator) : (operator sign).Rescans :=
  rescans_of_form .operator rfl

end TokenKind

/-! ### Scanned tokens -/

namespace Token

variable {c : Char} {cs : List Char} {previous : Option TokenKind} {scanned : Scanned}

/-- Whatever is scanned is scanned again as the same, but for comments. -/
theorem rescans_of_scanToken (h : scanToken previous c cs = .ok scanned)
    (hcomment : scanned.kind.isComment = false)
    (hnumber : ∀ value, scanned.kind = .number value → value.IsWritten) :
    scanned.kind.Rescans := by
  obtain ⟨_, _, _, _, hstands⟩ := scanToken_eq_ok_iff.1 h
  exact TokenKind.rescans_of_form (TokenKind.form_text hstands.form hnumber) hcomment

/-- A minus is read as part of a number only where a sign can stand. -/
theorem allowsSign_of_scanToken (h : scanToken previous c cs = .ok scanned)
    (hnegative : scanned.kind.isNegative = true) : allowsSign previous = true := by
  obtain ⟨_, _, _, _, hstands⟩ := scanToken_eq_ok_iff.1 h
  exact hstands.sign hnegative

theorem more_of_isComment (h : scanToken previous c cs = .ok scanned)
    (hcomment : scanned.kind.isComment = true) : scanned.more = cs.length := by
  obtain ⟨body, rest, rfl, hmore, hstands⟩ := scanToken_eq_ok_iff.1 h
  obtain rfl := (TokenKind.stops_iff_of_isComment hcomment).1 hstands.stops
  rw [List.append_nil]
  exact hmore

end Token

end DecisionLang
