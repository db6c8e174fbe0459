import DecisionLang.Proofs.Moment
import DecisionLang.Proofs.Number.Written
import DecisionLang.Proofs.Token.Scanned

/-!
# Forms of tokens

Tokens of a kind have a form in which they are written, `TokenKind.Form`, and go on as far as they
can: `TokenKind.Stops` says of what follows a token that it does not go on with it. For each sort of
token what is scanned has the form, and the form is scanned whole up to what stops it.
-/

namespace DecisionLang

structure Text.IsWord (word : List Char) : Prop where
  start : word.head?.any Token.isWordStart = true
  parts : ∀ c ∈ word, Token.isWordPart c = true

namespace TokenKind

def isNegative : TokenKind → Bool
  | number value => value.negative
  | _ => false

def isComment : TokenKind → Bool
  | comment _ => true
  | _ => false

/-- How tokens are written in a line. -/
inductive Form : TokenKind → List Char → Prop
  | word {text : List Char} (hword : Text.IsWord text) (htrue : String.ofList text ≠ "true")
      (hfalse : String.ofList text ≠ "false") : Form (.word (String.ofList text)) text
  | boolean {value : Bool} : Form (.boolean value) (boolean value).text.toList
  | path {parts : List (List Char)} (htwo : 2 ≤ parts.length)
      (hparts : ∀ part ∈ parts, Text.IsWord part) :
      Form (.path (parts.map String.ofList)) (['.'].intercalate parts)
  | number {sign digits : List Char} (hsign : sign = [] ∨ sign = ['-'])
      (hdigits : Number.IsDecimal digits) :
      Form (.number (Number.ofDecimal (sign ++ digits))) (sign ++ digits)
  | quoted {content : List Char} (hquote : '"' ∉ content) :
      Form (.quoted (String.ofList content)) ('"' :: (content ++ ['"']))
  | moment {content : List Char} {value : Moment} (hquote : '"' ∉ content)
      (hread : Moment.read content = .ok value) :
      Form (.moment value) ('d' :: '"' :: (content ++ ['"']))
  | operator {sign : Operator} : Form (.operator sign) sign.spelling.toList
  | comment {content : List Char} :
      Form (.comment (String.ofList (Text.trim content))) ('/' :: '/' :: content)

/-- What follows a word does not go on with it; of points, only two in a row do not. -/
def StopsWord (rest : List Char) : Prop :=
  ∀ c ∈ rest.head?, Token.isWordPart c = false ∧ (c = '.' → rest.tail.head? = some '.')

def StopsNumber (rest : List Char) : Prop :=
  ∀ c ∈ rest.head?, Token.isWordPart c = false ∧ c ≠ '.'

/-- What follows an operator starts neither a longer operator nor a comment with it, nor a number
where a sign can stand. -/
structure StopsOperator (previous : Option TokenKind) (sign : Operator) (rest : List Char) :
    Prop where
  longest : ∀ other : Operator, other.spelling.toList <+: sign.spelling.toList ++ rest →
    other.spelling.length ≤ sign.spelling.length
  comment : sign = .division → rest.head? ≠ some '/'
  number : sign = .subtraction → Token.allowsSign previous = true →
    rest.head?.any Char.isDigit = false

/-- What follows a token does not go on with it. The word `d` and a quote would start a date, and a
comment goes on with everything. -/
def Stops (previous : Option TokenKind) : TokenKind → List Char → Prop
  | word text, rest => StopsWord rest ∧ (text = "d" → rest.head? ≠ some '"')
  | boolean _, rest | path _, rest => StopsWord rest
  | number _, rest => StopsNumber rest
  | quoted _, _ | moment _, _ => True
  | operator sign, rest => StopsOperator previous sign rest
  | comment _, rest => rest = []

end TokenKind

namespace Token

open TokenKind

variable {c : Char} {cs text rest : List Char} {previous : Option TokenKind}

/-! ### Characters -/

theorem isWordPart_of_isWordStart (h : isWordStart c = true) : isWordPart c = true := by
  simp only [isWordStart, isWordPart, Char.isAlphanum, Bool.or_eq_true] at h ⊢
  grind

theorem ne_of_isWordStart (h : isWordStart c = true) :
    c ≠ '/' ∧ c ≠ '"' ∧ c ≠ '-' ∧ c ≠ '.' ∧ c.isDigit = false ∧ Text.isBlank c = false := by
  have hrange : (65 ≤ c.toNat ∧ c.toNat ≤ 90) ∨ (97 ≤ c.toNat ∧ c.toNat ≤ 122) ∨ c.toNat = 95 := by
    simp only [isWordStart, Bool.or_eq_true, beq_iff_eq] at h
    rcases h with hletter | rfl
    · rcases Bool.or_eq_true_iff.1 hletter with hupper | hlower
      · exact .inl (of_decide_eq_true hupper)
      · obtain ⟨hfirst, hlast⟩ := Bool.and_eq_true_iff.1 hlower
        exact .inr (.inl ⟨of_decide_eq_true hfirst, of_decide_eq_true hlast⟩)
    · exact .inr (.inr rfl)
  have hne (d : Char) (hd : ¬((65 ≤ d.toNat ∧ d.toNat ≤ 90) ∨ (97 ≤ d.toNat ∧ d.toNat ≤ 122) ∨
      d.toNat = 95)) : c ≠ d := by
    rintro rfl
    exact hd hrange
  refine ⟨hne _ (by decide), hne _ (by decide), hne _ (by decide), hne _ (by decide), ?_, ?_⟩
  · rw [Bool.eq_false_iff]
    intro hdigit
    simp only [Char.isDigit, Bool.and_eq_true, decide_eq_true_eq] at hdigit
    have hdigit' : 48 ≤ c.toNat ∧ c.toNat ≤ 57 := hdigit
    omega
  · simp only [Text.isBlank, Bool.or_eq_false_iff, Bool.and_eq_false_iff, decide_eq_false_iff_not,
      beq_eq_false_iff_ne]
    omega

theorem ne_of_isDigit (h : c.isDigit = true) :
    c ≠ '/' ∧ c ≠ '"' ∧ c ≠ 'd' ∧ c ≠ '-' ∧ Text.isBlank c = false := by
  simp only [Char.isDigit, Bool.and_eq_true, decide_eq_true_eq] at h
  have hrange : 48 ≤ c.toNat ∧ c.toNat ≤ 57 := h
  have hne (d : Char) (hd : ¬(48 ≤ d.toNat ∧ d.toNat ≤ 57)) : c ≠ d := by
    rintro rfl
    exact hd hrange
  refine ⟨hne _ (by decide), hne _ (by decide), hne _ (by decide), hne _ (by decide), ?_⟩
  simp only [Text.isBlank, Bool.or_eq_false_iff, Bool.and_eq_false_iff, decide_eq_false_iff_not,
    beq_eq_false_iff_ne]
  omega

theorem isWordPart_of_isDigit (h : c.isDigit = true) : isWordPart c = true := by
  simp [isWordPart, Char.isAlphanum, h]

theorem ne_point_of_isWordPart (h : isWordPart c = true) : c ≠ '.' := by
  rintro rfl
  exact absurd h (by decide)

/-! ### Words -/

theorem wordLength_cons_of_isWordPart (h : isWordPart c = true) :
    wordLength (c :: cs) = wordLength cs + 1 := by
  simp [wordLength, h, ne_point_of_isWordPart h]

theorem wordLength_le (text : List Char) : wordLength text ≤ text.length := by
  induction text with
  | nil => exact Nat.le_refl 0
  | cons c cs ih =>
    rw [wordLength]
    split
    · omega
    · split
      · exact Nat.succ_le_succ ih
      · omega

theorem isWordPart_of_mem_take {d : Char} (h : d ∈ text.take (wordLength text)) (hpoint : d ≠ '.') :
    isWordPart d = true := by
  induction text with
  | nil => cases h
  | cons c cs ih =>
    unfold wordLength at h
    split at h
    · cases h
    · split at h
      · next hc =>
        rcases List.mem_cons.1 h with rfl | h
        · simpa [hpoint] using hc
        · exact ih h
      · cases h

theorem stopsWord_drop (text : List Char) : StopsWord (text.drop (wordLength text)) := by
  induction text with
  | nil => exact nofun
  | cons c cs ih =>
    rw [wordLength]
    split
    · next hspread =>
      simp only [Bool.and_eq_true, beq_iff_eq] at hspread
      rintro _ ⟨⟩
      rw [hspread.1]
      exact ⟨by decide, fun _ => hspread.2⟩
    · split
      · exact ih
      · next hpart =>
        simp only [Bool.or_eq_true, beq_iff_eq, not_or] at hpart
        rintro _ ⟨⟩
        exact ⟨Bool.eq_false_iff.2 hpart.1, fun heq => absurd heq hpart.2⟩

theorem wordLength_of_stopsWord (h : StopsWord rest) : wordLength rest = 0 := by
  cases rest with
  | nil => rfl
  | cons c cs =>
    obtain ⟨hpart, hspread⟩ := h c rfl
    by_cases hpoint : c = '.'
    · have hnext : cs.head? = some '.' := hspread hpoint
      simp [wordLength, hpoint, hnext]
    · simp [wordLength, hpart, hpoint]

theorem wordLength_append {word : List Char} (hword : ∀ c ∈ word, isWordPart c = true) :
    wordLength (word ++ rest) = word.length + wordLength rest := by
  induction word with
  | nil => simp
  | cons c word ih =>
    obtain ⟨hc, hword⟩ := List.forall_mem_cons.1 hword
    rw [List.cons_append, wordLength_cons_of_isWordPart hc, ih hword, List.length_cons]
    omega

theorem wordLength_intercalate {parts : List (List Char)} (hparts : ∀ part ∈ parts, Text.IsWord part)
    (hrest : StopsWord rest) :
    wordLength (['.'].intercalate parts ++ rest) = (['.'].intercalate parts).length := by
  induction parts with
  | nil => simpa using wordLength_of_stopsWord hrest
  | cons first parts ih =>
    obtain ⟨hfirst, hparts⟩ := List.forall_mem_cons.1 hparts
    cases parts with
    | nil =>
      have hword : wordLength (first ++ rest) = first.length + wordLength rest :=
        wordLength_append hfirst.parts
      simpa [wordLength_of_stopsWord hrest] using hword
    | cons second parts =>
      have hsecond := (hparts second List.mem_cons_self).start
      obtain ⟨d, ds, hd⟩ : ∃ d ds, ['.'].intercalate (second :: parts) = d :: ds ∧
          isWordStart d = true := by
        cases second with
        | nil => cases hsecond
        | cons d ds =>
          cases parts with
          | nil => exact ⟨d, ds, by simp, hsecond⟩
          | cons third parts => exact ⟨d, _, List.intercalate_cons_cons, hsecond⟩
      have hpoint : wordLength ('.' :: (['.'].intercalate (second :: parts) ++ rest)) =
          wordLength (['.'].intercalate (second :: parts) ++ rest) + 1 := by
        rw [hd.1, List.cons_append, wordLength, if_neg, if_pos (by simp)]
        simp [(ne_of_isWordStart hd.2).2.2.2.1]
      rw [List.intercalate_cons_cons, List.append_assoc, List.append_assoc, List.singleton_append,
        wordLength_append hfirst.parts, hpoint, ih hparts]
      simp only [List.length_append, List.length_singleton]
      omega

end Token

namespace Text

theorem IsWord.notMem_point {word : List Char} (h : IsWord word) : '.' ∉ word :=
  fun hmem => Token.ne_point_of_isWordPart (h.parts _ hmem) rfl

theorem mem_of_mem_splitAt {separator c : Char} {text piece : List Char}
    (h : piece ∈ splitAt separator text) (hc : c ∈ piece) : c ∈ text := by
  induction text generalizing piece with
  | nil =>
    rw [List.mem_singleton.1 h] at hc
    cases hc
  | cons d ds ih =>
    unfold splitAt at h
    split at h
    · rcases List.mem_cons.1 h with rfl | h
      · cases hc
      · exact .tail _ (ih h hc)
    · split at h
      · next hnil => exact absurd hnil (splitAt_ne_nil separator ds)
      · next first pieces hpieces =>
        rw [hpieces] at ih
        rcases List.mem_cons.1 h with rfl | h
        · rcases List.mem_cons.1 hc with rfl | hc
          · exact List.mem_cons_self
          · exact .tail _ (ih List.mem_cons_self hc)
        · exact .tail _ (ih (.tail _ h) hc)

end Text

namespace Token

open TokenKind

variable {c : Char} {cs text rest : List Char} {previous : Option TokenKind} {scanned : Scanned}

theorem take_wordLength_append {parts : List (List Char)} (hparts : ∀ part ∈ parts, Text.IsWord part)
    (hrest : StopsWord rest) :
    (['.'].intercalate parts ++ rest).take (wordLength (['.'].intercalate parts ++ rest)) =
      ['.'].intercalate parts := by
  rw [wordLength_intercalate hparts hrest, List.take_left]

/-- A word without points, with the kind of token that it is. -/
theorem scanWord_word (hword : Text.IsWord text) (hrest : StopsWord rest) :
    scanWord (text ++ rest) =
      match String.ofList text with
      | "true" => .ok ⟨.boolean true, text.length - 1⟩
      | "false" => .ok ⟨.boolean false, text.length - 1⟩
      | other => .ok ⟨.word other, text.length - 1⟩ := by
  have htake := take_wordLength_append (List.forall_mem_singleton.2 hword) hrest
  rw [List.intercalate_singleton] at htake
  have hpoint : text.contains '.' = false := by
    simpa using hword.notMem_point
  rw [scanWord, htake, hpoint]
  rfl

theorem scanWord_path {parts : List (List Char)} (htwo : 2 ≤ parts.length)
    (hparts : ∀ part ∈ parts, Text.IsWord part) (hrest : StopsWord rest) :
    scanWord (['.'].intercalate parts ++ rest) =
      .ok ⟨.path (parts.map String.ofList), (['.'].intercalate parts).length - 1⟩ := by
  have hsplit : Text.splitAt '.' (['.'].intercalate parts) = parts :=
    Text.splitAt_intercalate (List.ne_nil_of_length_pos (by omega))
      fun part hpart => (hparts part hpart).notMem_point
  have hpoint : (['.'].intercalate parts).contains '.' = true := by
    match parts, htwo with
    | first :: second :: rest, _ => simp [List.intercalate_cons_cons]
  have hall : parts.all isPathPart = true :=
    List.all_eq_true.2 fun part hpart => (hparts part hpart).start
  simp only [scanWord, take_wordLength_append hparts hrest, hpoint, hsplit, hall, if_true]

/-- A letter or an underscore starts a word, but for the `d` of a date. -/
theorem scanToken_word (hstart : isWordStart c = true)
    (hdate : c = 'd' → cs.head? ≠ some '"') :
    scanToken previous c cs = scanWord (c :: cs) := by
  obtain ⟨hslash, hquote, hminus, _, hdigit, _⟩ := ne_of_isWordStart hstart
  have hdate : (c == 'd' && cs.head? == some '"') = false := by
    simpa using hdate
  simp only [scanToken, beq_eq_false_iff_ne.2 hslash, beq_eq_false_iff_ne.2 hquote,
    beq_eq_false_iff_ne.2 hminus, hdigit, hdate, hstart, Bool.false_and, Bool.or_self,
    Bool.false_eq_true, if_false, if_true]

/-! ### Numbers -/

theorem decimalLength_of_stops (pointAllowed : Bool) (hrest : StopsNumber rest) :
    decimalLength pointAllowed rest = 0 := by
  cases rest with
  | nil => rfl
  | cons c cs =>
    obtain ⟨hpart, hpoint⟩ := hrest c rfl
    have hdigit : c.isDigit = false := by
      rw [Bool.eq_false_iff]
      intro hdigit
      rw [isWordPart_of_isDigit hdigit] at hpart
      cases hpart
    simp [decimalLength, hdigit, hpoint]

theorem decimalLength_digits (pointAllowed : Bool) {digits : List Char}
    (hdigits : ∀ c ∈ digits, c.isDigit = true) :
    decimalLength pointAllowed (digits ++ rest) =
      digits.length + decimalLength pointAllowed rest := by
  induction digits with
  | nil => simp
  | cons c digits ih =>
    rw [List.forall_mem_cons] at hdigits
    rw [List.cons_append, decimalLength, if_pos hdigits.1, ih hdigits.2, List.length_cons]
    omega

theorem decimalLength_decimal (h : Number.IsDecimal text) (hrest : StopsNumber rest) :
    decimalLength true (text ++ rest) = text.length := by
  obtain ⟨whole, fraction, _, hwhole, hfraction, rfl | ⟨hne, rfl⟩⟩ := h
  · rw [decimalLength_digits true hwhole, decimalLength_of_stops true hrest, Nat.add_zero]
  · obtain ⟨d, ds, rfl⟩ := List.exists_cons_of_ne_nil hne
    have hd : d.isDigit = true := hfraction d List.mem_cons_self
    have hpoint : decimalLength true ('.' :: ((d :: ds) ++ rest)) = (d :: ds).length + 1 := by
      rw [decimalLength, if_neg (by decide), if_pos (by simp [hd]),
        decimalLength_digits false hfraction, decimalLength_of_stops false hrest, Nat.add_zero]
    rw [List.append_assoc, List.cons_append, decimalLength_digits true hwhole, hpoint,
      List.length_append, List.length_cons, List.length_cons, List.length_cons]

theorem exists_digit_of_isDecimal (h : Number.IsDecimal text) :
    ∃ d ds, text = d :: ds ∧ d.isDigit = true := by
  obtain ⟨whole, fraction, hne, hwhole, _, htext⟩ := h
  obtain ⟨d, ds, rfl⟩ := List.exists_cons_of_ne_nil hne
  rcases htext with rfl | ⟨_, rfl⟩
  · exact ⟨d, ds, rfl, hwhole d List.mem_cons_self⟩
  · exact ⟨d, ds ++ '.' :: fraction, rfl, hwhole d List.mem_cons_self⟩

theorem decimalLength_le (pointAllowed : Bool) (text : List Char) :
    decimalLength pointAllowed text ≤ text.length := by
  fun_induction decimalLength pointAllowed text with
  | case1 => exact Nat.le_refl 0
  | case2 => exact Nat.succ_le_succ ‹_›
  | case3 => exact Nat.succ_le_succ ‹_›
  | case4 => exact Nat.zero_le _

theorem isDigit_of_mem_take_decimalLength
    (h : c ∈ text.take (decimalLength false text)) : c.isDigit = true := by
  induction text with
  | nil => cases h
  | cons d ds ih =>
    rw [decimalLength] at h
    split at h
    · next hd =>
      rcases List.mem_cons.1 h with rfl | h
      · exact hd
      · exact ih h
    · simp at h

theorem exists_decimal (text : List Char) :
    ∃ whole fraction, (∀ c ∈ whole, c.isDigit = true) ∧ (∀ c ∈ fraction, c.isDigit = true) ∧
      (text.take (decimalLength true text) = whole ∨
        fraction ≠ [] ∧ text.take (decimalLength true text) = whole ++ '.' :: fraction) := by
  induction text with
  | nil => exact ⟨[], [], nofun, nofun, .inl rfl⟩
  | cons c cs ih =>
    rw [decimalLength]
    split
    · next hc =>
      obtain ⟨whole, fraction, hwhole, hfraction, htext⟩ := ih
      refine ⟨c :: whole, fraction, List.forall_mem_cons.2 ⟨hc, hwhole⟩, hfraction, ?_⟩
      exact htext.imp (congrArg (c :: ·)) (And.imp_right (congrArg (c :: ·)))
    · split
      · next hpoint =>
        simp only [Bool.and_eq_true, beq_iff_eq] at hpoint
        obtain ⟨d, hd, hdigit⟩ := (Option.any_eq_true _ _).1 hpoint.2
        obtain ⟨ds, rfl⟩ := List.head?_eq_some_iff.1 hd
        refine ⟨[], (d :: ds).take (decimalLength false (d :: ds)), nofun,
          fun e he => isDigit_of_mem_take_decimalLength he, .inr ⟨?_, ?_⟩⟩
        · simp [decimalLength, hdigit]
        · rw [hpoint.1.1, List.take_succ_cons, List.nil_append]
      · exact ⟨[], [], nofun, nofun, .inl rfl⟩

theorem isDecimal_take (h : text.head?.any Char.isDigit = true) :
    Number.IsDecimal (text.take (decimalLength true text)) := by
  obtain ⟨whole, fraction, hwhole, hfraction, htext⟩ := exists_decimal text
  refine ⟨whole, fraction, ?_, hwhole, hfraction, htext⟩
  rintro rfl
  obtain ⟨d, hd, hdigit⟩ := (Option.any_eq_true _ _).1 h
  obtain ⟨ds, rfl⟩ := List.head?_eq_some_iff.1 hd
  rw [decimalLength, if_pos hdigit, List.take_succ_cons] at htext
  rcases htext with htext | ⟨_, htext⟩
  · cases htext
  · cases htext
    exact absurd hdigit (by decide)

/-- A decimal is scanned whole, with its minus if there is one. -/
theorem scanNumber_decimal {sign : List Char} (hsign : sign = [] ∨ sign = ['-'])
    (h : Number.IsDecimal text) (hrest : StopsNumber rest) :
    scanNumber (sign ++ text ++ rest) =
      .ok ⟨.number (Number.ofDecimal (sign ++ text)), (sign ++ text).length - 1⟩ := by
  obtain ⟨d, ds, htext, hd⟩ := exists_digit_of_isDecimal h
  have hlength : (if (sign ++ text ++ rest).head? = some '-' then 1 else 0) = sign.length := by
    rcases hsign with rfl | rfl
    · rw [htext]
      simp [(ne_of_isDigit hd).2.2.2.1]
    · rfl
  have hafter : (rest.head?.any fun c => isWordPart c || c == '.') = false := by
    rw [Option.any_eq_false]
    intro c hc
    simp [hrest c hc]
  unfold scanNumber
  simp only [hlength]
  rw [List.append_assoc, List.drop_left, decimalLength_decimal h hrest, ← List.append_assoc,
    ← List.length_append, List.drop_left, List.take_left, hafter, if_neg Bool.false_ne_true]

/-- What is scanned as a number has the form of one and goes on as far as it can. -/
theorem form_of_scanNumber {sign : List Char} (hsign : sign = [] ∨ sign = ['-'])
    (hdigit : text.head?.any Char.isDigit = true)
    (h : scanNumber (sign ++ text) = .ok scanned) :
    ∃ digits rest, text = digits ++ rest ∧ Number.IsDecimal digits ∧ StopsNumber rest ∧
      scanned = ⟨.number (Number.ofDecimal (sign ++ digits)), (sign ++ digits).length - 1⟩ := by
  obtain ⟨digits, rest, rfl, hlength, hdecimal⟩ : ∃ digits rest, text = digits ++ rest ∧
      decimalLength true text = digits.length ∧ Number.IsDecimal digits :=
    ⟨_, _, (List.take_append_drop _ _).symm,
      (List.length_take_of_le (decimalLength_le true text)).symm, isDecimal_take hdigit⟩
  have hminus : (if (sign ++ (digits ++ rest)).head? = some '-' then 1 else 0) = sign.length := by
    obtain ⟨d, ds, rfl, hd⟩ := exists_digit_of_isDecimal hdecimal
    rcases hsign with rfl | rfl
    · simp [(ne_of_isDigit hd).2.2.2.1]
    · rfl
  unfold scanNumber at h
  simp only [hminus, List.drop_left, hlength] at h
  rw [← List.append_assoc, ← List.length_append, List.drop_left, List.take_left] at h
  split at h
  · cases h
  · next hstops =>
    cases h
    refine ⟨digits, rest, rfl, hdecimal, fun c hc => ?_, rfl⟩
    rw [Bool.not_eq_true, Option.any_eq_false] at hstops
    simpa using hstops c hc

/-! ### Quoted texts -/

theorem takeWhile_quote {content : List Char} (h : '"' ∉ content) (rest : List Char) :
    (content ++ '"' :: rest).takeWhile (· != '"') = content := by
  have hcontent : ∀ c ∈ content, (c != '"') = true := by
    intro c hc
    rw [bne_iff_ne]
    rintro rfl
    exact h hc
  rw [List.takeWhile_append_of_pos hcontent]
  simp

theorem exists_quote (h : (text.takeWhile (· != '"')).length < text.length) :
    ∃ content rest, '"' ∉ content ∧ text = content ++ '"' :: rest := by
  induction text with
  | nil => cases h
  | cons c cs ih =>
    by_cases hc : c = '"'
    · exact ⟨[], cs, List.not_mem_nil, congrArg (· :: cs) hc⟩
    · rw [List.takeWhile_cons, if_pos (bne_iff_ne.2 hc)] at h
      obtain ⟨content, rest, hquote, rfl⟩ := ih (Nat.lt_of_succ_lt_succ h)
      exact ⟨c :: content, rest, List.not_mem_cons_of_ne_of_not_mem (Ne.symm hc) hquote, rfl⟩

theorem scanQuoted_append {content : List Char} (h : '"' ∉ content) :
    scanQuoted (content ++ '"' :: rest) =
      .ok ⟨.quoted (String.ofList content), content.length + 1⟩ := by
  simp [scanQuoted, takeWhile_quote h]

theorem scanDate_append {content : List Char} {value : Moment} (h : '"' ∉ content)
    (hread : Moment.read content = .ok value) :
    scanDate (content ++ '"' :: rest) = .ok ⟨.moment value, content.length + 2⟩ := by
  simp [scanDate, takeWhile_quote h, hread]

end Token

end DecisionLang
