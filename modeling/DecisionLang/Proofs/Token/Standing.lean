import DecisionLang.Proofs.Token.Form

/-!
# Tokens where they stand

Main statement: at the start of a text a token is scanned exactly if the text starts with its form
and goes on with something that stops it, and, for a number with a minus, if a sign can stand there
(`Token.scanToken_eq_ok_iff`).
-/

namespace DecisionLang

/-! ### Operators -/

namespace Operator

variable {text : List Char} {sign other : Operator}

theorem mem_all (operator : Operator) : operator ∈ all := by
  cases operator <;> decide

theorem spelling_injective (h : sign.spelling = other.spelling) : sign = other :=
  Option.some.inj (by rw [← ofSpelling?_spelling sign, h, ofSpelling?_spelling])

def longer (first second : Operator) : Operator :=
  if first.spelling.length ≤ second.spelling.length then second else first

theorem longer_cases (first second : Operator) :
    (longer first second = first ∨ longer first second = second) ∧
      first.spelling.length ≤ (longer first second).spelling.length ∧
      second.spelling.length ≤ (longer first second).spelling.length := by
  unfold longer
  split
  · exact ⟨.inr rfl, ‹_›, Nat.le_refl _⟩
  · exact ⟨.inl rfl, Nat.le_refl _, by omega⟩

theorem foldl_longer (first : Operator) (rest : List Operator) :
    rest.foldl longer first ∈ first :: rest ∧
      ∀ other ∈ first :: rest, other.spelling.length ≤ (rest.foldl longer first).spelling.length := by
  induction rest generalizing first with
  | nil => exact ⟨.head _, List.forall_mem_singleton.2 (Nat.le_refl _)⟩
  | cons second rest ih =>
    obtain ⟨hcases, hfirst, hsecond⟩ := longer_cases first second
    obtain ⟨hmem, hmax⟩ := ih (longer first second)
    obtain ⟨hbest, hrest⟩ := List.forall_mem_cons.1 hmax
    rw [List.foldl_cons]
    refine ⟨?_, List.forall_mem_cons.2 ⟨Nat.le_trans hfirst hbest,
      List.forall_mem_cons.2 ⟨Nat.le_trans hsecond hbest, hrest⟩⟩⟩
    rcases List.mem_cons.1 hmem with heq | hmem
    · rw [heq]
      rcases hcases with heq | heq <;> rw [heq]
      · exact .head _
      · exact .tail _ (.head _)
    · exact .tail _ (.tail _ hmem)

theorem longestAtStart?_of_nil
    (h : all.filter (fun operator => operator.spelling.toList.isPrefixOf text) = []) :
    longestAtStart? text = none := by
  rw [longestAtStart?, h, List.foldl_nil]

theorem longestAtStart?_of_cons {first : Operator} {rest : List Operator}
    (h : all.filter (fun operator => operator.spelling.toList.isPrefixOf text) = first :: rest) :
    longestAtStart? text = some (rest.foldl longer first) := by
  rw [longestAtStart?, h, List.foldl_cons]
  clear h
  induction rest generalizing first with
  | nil => rfl
  | cons second rest ih =>
    rw [List.foldl_cons, List.foldl_cons, ← ih, longer]
    dsimp only
    split <;> rfl

/-- The operator that is found is as long as any other with which the text starts. -/
theorem longestAtStart?_eq_some_iff :
    longestAtStart? text = some sign ↔ sign.spelling.toList <+: text ∧
      ∀ other : Operator, other.spelling.toList <+: text →
        other.spelling.length ≤ sign.spelling.length := by
  have hcandidates (operator : Operator) :
      operator ∈ all.filter (fun operator => operator.spelling.toList.isPrefixOf text) ↔
        operator.spelling.toList <+: text := by
    simp [mem_all]
  cases hfound : all.filter fun operator => operator.spelling.toList.isPrefixOf text with
  | nil =>
    rw [hfound] at hcandidates
    rw [longestAtStart?_of_nil hfound]
    exact iff_of_false (Option.some_ne_none sign).symm
      fun h => List.not_mem_nil ((hcandidates sign).2 h.1)
  | cons first rest =>
    rw [hfound] at hcandidates
    obtain ⟨hmem, hmax⟩ := foldl_longer first rest
    have hbest := (hcandidates _).1 hmem
    rw [longestAtStart?_of_cons hfound, Option.some_inj]
    constructor
    · rintro rfl
      exact ⟨hbest, fun other hother => hmax other ((hcandidates other).2 hother)⟩
    · rintro ⟨hsign, hlongest⟩
      have hlength : (rest.foldl longer first).spelling.toList.length =
          sign.spelling.toList.length :=
        Nat.le_antisymm (hlongest _ hbest) (hmax sign ((hcandidates sign).2 hsign))
      exact spelling_injective (String.toList_inj.1
        ((List.prefix_of_prefix_length_le hbest hsign (Nat.le_of_eq hlength)).eq_of_length hlength))

end Operator

/-! ### Tokens -/

namespace TokenKind

variable {previous : Option TokenKind} {kind : TokenKind} {text span rest : List Char}

/-- A token stands at the start of a text, up to what follows it. -/
structure Stands (previous : Option TokenKind) (kind : TokenKind) (span rest : List Char) :
    Prop where
  form : kind.Form span
  sign : kind.isNegative = true → Token.allowsSign previous = true
  stops : kind.Stops previous rest

/-- A token starts with a character that is not white space. -/
theorem Form.exists_cons (h : kind.Form span) :
    ∃ c cs, span = c :: cs ∧ Text.isBlank c = false := by
  have hstart {word : List Char} (hword : Text.IsWord word) :
      ∃ c cs, word = c :: cs ∧ Token.isWordStart c = true := by
    obtain ⟨c, hc, hstart⟩ := (Option.any_eq_true _ _).1 hword.start
    obtain ⟨cs, rfl⟩ := List.head?_eq_some_iff.1 hc
    exact ⟨c, cs, rfl, hstart⟩
  cases h with
  | word hword =>
    obtain ⟨c, cs, rfl, hstart⟩ := hstart hword
    exact ⟨c, cs, rfl, (Token.ne_of_isWordStart hstart).2.2.2.2.2⟩
  | @boolean value => cases value <;> exact ⟨_, _, rfl, rfl⟩
  | @path parts htwo hparts =>
    match parts, htwo with
    | first :: second :: rest, _ =>
      obtain ⟨c, cs, rfl, hstart⟩ := hstart (hparts first (.head _))
      exact ⟨c, _, List.intercalate_cons_cons, (Token.ne_of_isWordStart hstart).2.2.2.2.2⟩
  | number hsign hdigits =>
    obtain ⟨d, ds, rfl, hd⟩ := Token.exists_digit_of_isDecimal hdigits
    rcases hsign with rfl | rfl
    · exact ⟨d, ds, rfl, (Token.ne_of_isDigit hd).2.2.2.2⟩
    · exact ⟨'-', d :: ds, rfl, rfl⟩
  | quoted | moment | comment => exact ⟨_, _, rfl, rfl⟩
  | @operator sign => cases sign <;> exact ⟨_, _, rfl, rfl⟩

end TokenKind

namespace Token

open TokenKind

variable {c : Char} {cs body rest : List Char} {previous : Option TokenKind} {kind : TokenKind}
  {more : Nat}

theorem scanToken_operator {sign : Operator} (hspelling : sign.spelling.toList = c :: body)
    (hstops : StopsOperator previous sign rest) :
    scanToken previous c (body ++ rest) = .ok ⟨.operator sign, body.length⟩ := by
  have hlongest : Operator.longestAtStart? (c :: (body ++ rest)) = some sign := by
    rw [← List.cons_append, ← hspelling]
    exact Operator.longestAtStart?_eq_some_iff.2 ⟨List.prefix_append _ _, hstops.longest⟩
  have hlength : sign.spelling.length - 1 = body.length := by
    rw [← String.length_toList, hspelling]
    rfl
  have hscan : scanOperator c (c :: (body ++ rest)) = .ok ⟨.operator sign, body.length⟩ := by
    rw [scanOperator, hlongest, ← hlength]
  rw [← hscan]
  cases sign with
  | division =>
    cases hspelling
    have hcomment : (rest.head? == some '/') = false := beq_eq_false_iff_ne.2 (hstops.comment rfl)
    rw [scanToken, List.nil_append, hcomment, Bool.and_false, if_neg Bool.false_ne_true]
    rfl
  | subtraction =>
    cases hspelling
    have hnumber : (rest.head?.any Char.isDigit && allowsSign previous) = false := by
      cases hallows : allowsSign previous with
      | false => exact Bool.and_false _
      | true => rw [hstops.number rfl hallows, Bool.false_and]
    simp only [scanToken, List.nil_append, Bool.and_assoc, hnumber]
    rfl
  | _ =>
    cases hspelling
    rfl

theorem head?_append_ne_quote (hbody : ∀ d ∈ body, isWordPart d = true)
    (hempty : body = [] → rest.head? ≠ some '"') : (body ++ rest).head? ≠ some '"' := by
  cases body with
  | nil => exact hempty rfl
  | cons d ds =>
    rintro ⟨⟩
    exact absurd (hbody _ (.head _)) (by decide)

theorem scanToken_append (h : kind.Stands previous (c :: body) rest) :
    scanToken previous c (body ++ rest) = .ok ⟨kind, body.length⟩ := by
  obtain ⟨hform, hsign, hstops⟩ := h
  generalize hspan : c :: body = span at hform
  have hlength : span.length - 1 = body.length := by
    rw [← hspan]
    rfl
  cases hform with
  | word hword htrue hfalse =>
    subst hspan
    rw [scanToken_word hword.start, ← List.cons_append, scanWord_word hword hstops.1]
    · split
      · exact absurd ‹_› htrue
      · exact absurd ‹_› hfalse
      · rfl
    · rintro rfl
      refine head?_append_ne_quote (fun d hd => hword.parts d (.tail _ hd)) ?_
      rintro rfl
      exact hstops.2 rfl
  | @boolean value =>
    have hword : Text.IsWord (c :: body) := by
      rw [hspan]
      cases value <;> exact ⟨rfl, List.all_eq_true.1 (by decide)⟩
    rw [scanToken_word hword.start, ← List.cons_append, scanWord_word hword hstops, hspan,
      String.ofList_toList, hlength]
    · cases value <;> rfl
    · refine fun _ => head?_append_ne_quote (fun d hd => hword.parts d (.tail _ hd)) ?_
      rintro rfl
      cases value <;> cases congrArg List.length hspan
  | @path parts htwo hparts =>
    have hscan := scanWord_path htwo hparts hstops
    rw [hlength, ← hspan, List.cons_append] at hscan
    match parts, htwo with
    | first :: second :: others, _ =>
      have hfirst := hparts first (.head _)
      cases first with
      | nil => cases hfirst.start
      | cons d ds =>
        rw [List.intercalate_cons_cons, List.append_assoc, List.cons_append] at hspan
        cases hspan
        rw [scanToken_word hfirst.start, hscan]
        intro _
        rw [List.append_assoc]
        exact head?_append_ne_quote (fun d hd => hfirst.parts d (.tail _ hd)) fun _ => by simp
  | number hform hdigits =>
    obtain ⟨d, ds, rfl, hd⟩ := exists_digit_of_isDecimal hdigits
    have hscan := scanNumber_decimal hform hdigits hstops
    rw [hlength, ← hspan, List.cons_append] at hscan
    rcases hform with rfl | rfl
    · cases hspan
      obtain ⟨hslash, hquote, hdate, _⟩ := ne_of_isDigit hd
      simpa [scanToken, hd, hslash, hquote, hdate] using hscan
    · cases hspan
      have hallows : allowsSign previous = true := hsign rfl
      simpa [scanToken, hd, hallows] using hscan
  | quoted hquote =>
    cases hspan
    simp [scanToken, scanQuoted_append hquote]
  | moment hquote hread =>
    cases hspan
    simp [scanToken, scanDate_append hquote hread]
  | operator => exact scanToken_operator hspan.symm hstops
  | comment =>
    cases hspan
    obtain rfl : rest = [] := hstops
    simp [scanToken]

/-- What is scanned as a word stands at the start of the text. -/
theorem stands_of_scanWord (hstart : isWordStart c = true) (hdate : c = 'd' → cs.head? ≠ some '"')
    (h : scanWord (c :: cs) = .ok ⟨kind, more⟩) :
    ∃ body rest, cs = body ++ rest ∧ more = body.length ∧ kind.Stands previous (c :: body) rest := by
  obtain ⟨body, rest, rfl, hlength⟩ : ∃ body rest, cs = body ++ rest ∧
      wordLength (c :: cs) = (c :: body).length :=
    ⟨_, _, (List.take_append_drop (wordLength cs) cs).symm, by
      rw [List.length_cons, List.length_take_of_le (wordLength_le cs),
        wordLength_cons_of_isWordPart (isWordPart_of_isWordStart hstart)]⟩
  have htake : (c :: (body ++ rest)).take (wordLength (c :: (body ++ rest))) = c :: body := by
    rw [hlength, ← List.cons_append, List.take_left]
  have hparts (d : Char) (hd : d ∈ c :: body) (hpoint : d ≠ '.') : isWordPart d = true :=
    isWordPart_of_mem_take (htake.symm ▸ hd) hpoint
  have hstops := stopsWord_drop (c :: (body ++ rest))
  rw [hlength, ← List.cons_append, List.drop_left] at hstops
  refine ⟨body, rest, rfl, ?_⟩
  simp only [scanWord, htake] at h
  split at h
  · next hpoint =>
    split at h
    · next hall =>
      cases h
      have hwords (part : List Char) (hpart : part ∈ Text.splitAt '.' (c :: body)) :
          Text.IsWord part := by
        refine ⟨List.all_eq_true.1 hall part hpart, fun d hd => ?_⟩
        refine hparts d (Text.mem_of_mem_splitAt hpart hd) ?_
        rintro rfl
        exact Text.notMem_of_mem_splitAt hpart hd
      have hform := Form.path (Text.two_le_length_splitAt (List.contains_iff_mem.1 hpoint)) hwords
      rw [Text.intercalate_splitAt] at hform
      exact ⟨rfl, hform, fun hnegative => Bool.noConfusion hnegative, hstops⟩
    · cases h
  · next hpoint =>
    have hword : Text.IsWord (c :: body) := by
      refine ⟨hstart, fun d hd => hparts d hd ?_⟩
      rintro rfl
      exact hpoint (List.contains_iff_mem.2 hd)
    have hboolean {value : Bool} (h : String.ofList (c :: body) = (boolean value).text) :
        (boolean value).Form (c :: body) := by
      rw [← String.toList_ofList (l := c :: body), h]
      exact .boolean
    split at h
    · next heq =>
      cases h
      exact ⟨rfl, hboolean heq, fun hnegative => Bool.noConfusion hnegative, hstops⟩
    · next heq =>
      cases h
      exact ⟨rfl, hboolean heq, fun hnegative => Bool.noConfusion hnegative, hstops⟩
    · next htrue hfalse =>
      cases h
      refine ⟨rfl, .word hword htrue hfalse, fun hnegative => Bool.noConfusion hnegative, hstops,
        fun heq => ?_⟩
      have hd : c :: body = ['d'] := by
        rw [← String.toList_ofList (l := c :: body), heq]
        rfl
      cases hd
      exact hdate rfl

theorem negative_ofDecimal (hc : c ≠ '-') : (Number.ofDecimal (c :: cs)).negative = false := by
  rw [Number.ofDecimal]
  rintro text htext
  cases htext
  exact hc rfl

theorem exists_spelling {sign : Operator} (h : sign.spelling.toList <+: c :: cs) :
    ∃ body rest, cs = body ++ rest ∧ sign.spelling.toList = c :: body := by
  obtain ⟨rest, hrest⟩ := h
  cases hspelling : sign.spelling.toList with
  | nil => cases sign <;> cases hspelling
  | cons d body =>
    rw [hspelling] at hrest
    cases hrest
    exact ⟨body, rest, rfl, rfl⟩

theorem stands_of_scanQuoted (h : scanQuoted cs = .ok ⟨kind, more⟩) :
    ∃ body rest, cs = body ++ rest ∧ more = body.length ∧
      kind.Stands previous ('"' :: body) rest := by
  unfold scanQuoted at h
  dsimp only at h
  split at h
  · next hclosed =>
    obtain ⟨content, rest, hcontent, rfl⟩ := exists_quote hclosed
    rw [takeWhile_quote hcontent] at h
    cases h
    exact ⟨content ++ ['"'], rest, by simp, by simp, .quoted hcontent, nofun, trivial⟩
  · cases h

theorem stands_of_scanDate (h : scanDate cs = .ok ⟨kind, more⟩) :
    ∃ body rest, '"' :: cs = body ++ rest ∧ more = body.length ∧
      kind.Stands previous ('d' :: body) rest := by
  unfold scanDate at h
  dsimp only at h
  split at h
  · next hclosed =>
    obtain ⟨content, rest, hcontent, rfl⟩ := exists_quote hclosed
    rw [takeWhile_quote hcontent] at h
    split at h
    · next hread =>
      cases h
      exact ⟨'"' :: (content ++ ['"']), rest, by simp, by simp, .moment hcontent hread, nofun,
        trivial⟩
    · cases h
  · cases h

theorem stands_of_scanNumber
    (hstart : c.isDigit = true ∨ (c = '-' ∧ cs.head?.any Char.isDigit = true) ∧
      allowsSign previous = true) (h : scanNumber (c :: cs) = .ok ⟨kind, more⟩) :
    ∃ body rest, cs = body ++ rest ∧ more = body.length ∧
      kind.Stands previous (c :: body) rest := by
  rcases hstart with hdigit | ⟨⟨rfl, hdigit⟩, hallows⟩
  · obtain ⟨digits, rest, htext, hdigits, hstops, heq⟩ :=
      form_of_scanNumber (.inl rfl) (by simpa using hdigit)
        (show scanNumber ([] ++ c :: cs) = .ok ⟨kind, more⟩ from h)
    obtain ⟨d, ds, rfl, hd⟩ := exists_digit_of_isDecimal hdigits
    cases htext
    cases heq
    refine ⟨ds, rest, rfl, rfl, .number (.inl rfl) hdigits, fun hnegative => ?_, hstops⟩
    exact absurd ((negative_ofDecimal (ne_of_isDigit hd).2.2.2.1).symm.trans hnegative) nofun
  · obtain ⟨digits, rest, rfl, hdigits, hstops, heq⟩ :=
      form_of_scanNumber (.inr rfl) hdigit (show scanNumber (['-'] ++ cs) = .ok ⟨kind, more⟩ from h)
    cases heq
    exact ⟨digits, rest, rfl, rfl, .number (.inr rfl) hdigits, fun _ => hallows, hstops⟩

/-- What is scanned as an operator stands at the start of the text, which starts neither a comment
nor a number. -/
theorem stands_of_scanOperator (hcomment : c = '/' → cs.head? ≠ some '/')
    (hnumber : c = '-' → allowsSign previous = true → cs.head?.any Char.isDigit = false)
    (h : scanOperator c (c :: cs) = .ok ⟨kind, more⟩) :
    ∃ body rest, cs = body ++ rest ∧ more = body.length ∧
      kind.Stands previous (c :: body) rest := by
  unfold scanOperator at h
  split at h
  · next sign hsign =>
    cases h
    obtain ⟨hstarts, hlongest⟩ := Operator.longestAtStart?_eq_some_iff.1 hsign
    obtain ⟨body, rest, rfl, hspelling⟩ := exists_spelling hstarts
    refine ⟨body, rest, rfl, ?_, ?_, nofun, ?_, ?_, ?_⟩
    · rw [← String.length_toList, hspelling]
      rfl
    · rw [← hspelling]
      exact .operator
    · rw [hspelling]
      exact hlongest
    · rintro rfl
      change ['/'] = c :: body at hspelling
      cases hspelling
      exact hcomment rfl
    · rintro rfl hallows
      change ['-'] = c :: body at hspelling
      cases hspelling
      exact hnumber rfl hallows
  · cases h

theorem stands_of_scanToken (h : scanToken previous c cs = .ok ⟨kind, more⟩) :
    ∃ body rest, cs = body ++ rest ∧ more = body.length ∧
      kind.Stands previous (c :: body) rest := by
  unfold scanToken at h
  split at h
  · next hslash =>
    simp only [Bool.and_eq_true, beq_iff_eq] at hslash
    obtain ⟨rfl, hhead⟩ := hslash
    obtain ⟨content, rfl⟩ := List.head?_eq_some_iff.1 hhead
    cases h
    exact ⟨_, [], (List.append_nil _).symm, rfl, .comment, nofun, rfl⟩
  next hcomment =>
  split at h
  · next hquote =>
    obtain rfl := beq_iff_eq.1 hquote
    exact stands_of_scanQuoted h
  split at h
  · next hdate =>
    simp only [Bool.and_eq_true, beq_iff_eq] at hdate
    obtain ⟨rfl, hhead⟩ := hdate
    obtain ⟨after, rfl⟩ := List.head?_eq_some_iff.1 hhead
    exact stands_of_scanDate h
  next hdate =>
  split at h
  · next hnumber => exact stands_of_scanNumber (by simpa using hnumber) h
  next hnumber =>
  split at h
  · next hstart => exact stands_of_scanWord hstart (by simpa using hdate) h
  · refine stands_of_scanOperator (by simpa using hcomment) ?_ h
    rintro rfl hallows
    simpa [hallows] using hnumber

/-- A token is scanned at the start of a text exactly if one of its form stands there, up to what
stops it. -/
theorem scanToken_eq_ok_iff :
    scanToken previous c cs = .ok ⟨kind, more⟩ ↔
      ∃ body rest, cs = body ++ rest ∧ more = body.length ∧
        kind.Stands previous (c :: body) rest := by
  refine ⟨stands_of_scanToken, ?_⟩
  rintro ⟨body, rest, rfl, rfl, hstands⟩
  exact scanToken_append hstands

theorem scanFrom_append {span : List Char} {column : Nat} {tokens : List Token}
    (h : kind.Stands previous span rest)
    (hrest : scanFrom (column + span.length) (some kind) rest = .ok tokens) :
    scanFrom column previous (span ++ rest) = .ok (⟨kind, column⟩ :: tokens) := by
  obtain ⟨c, body, rfl, hblank⟩ := h.form.exists_cons
  have hcolumn : column + (c :: body).length = column + 1 + body.length := by
    rw [List.length_cons]
    omega
  rw [hcolumn] at hrest
  rw [List.cons_append, scanFrom, if_neg (by simp [hblank]), scanToken_append h]
  simp only [List.drop_left, hrest]

end Token

end DecisionLang
