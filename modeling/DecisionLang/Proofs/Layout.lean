import DecisionLang.Proofs.Layout.Run
import DecisionLang.Proofs.Layout.Scanned

/-!
# Layout does not matter

The layout of a source is its lines without content, the comments at the ends of its lines, and how
its margins are made up of tabs and spaces. `Relaid` relates sources that differ in layout, by any
number of changes one after the other, and says where references go. Main statement:
`Relaid.exists_comments`, that such sources are read as the same declarations and inclusions, with
the same numbers and the same log, at the references they are moved to; only the comments differ.
-/

namespace DecisionLang

open Numbered

/-! ### Where references go -/

namespace Reference

variable (file : String) (count : Nat)

/-- A line is inserted after so many lines of a file. -/
def afterInsertion (reference : Reference) : Reference :=
  if reference.file = file ∧ count < reference.line then
    { reference with line := reference.line + 1 }
  else reference

/-- The line after so many lines of a file is removed. -/
def afterRemoval (reference : Reference) : Reference :=
  if reference.file = file ∧ count + 1 < reference.line then
    { reference with line := reference.line - 1 }
  else reference

/-- The line after so many lines of a file starts with a margin of another length. -/
def afterIndenting (length length' : Nat) (reference : Reference) : Reference :=
  if reference.file = file ∧ reference.line = count + 1 then
    { reference with column := reference.column - length + length' }
  else reference

end Reference

/-- Only the layout of some lines differs, and references go where the function says. -/
inductive Relaid (width : Nat) (file : String) :
    (Reference → Reference) → List String → List String → Prop
  | same (lines : List String) : Relaid width file id lines lines
  /-- A line that is blank or has only a comment, at any depth, is inserted. -/
  | inserted (before after : List String) {line : String} (h : Line.isContent line = false) :
      Relaid width file (Reference.afterInsertion file before.length) (before ++ after)
        (before ++ line :: after)
  | removed (before after : List String) {line : String} (h : Line.isContent line = false) :
      Relaid width file (Reference.afterRemoval file before.length) (before ++ line :: after)
        (before ++ after)
  /-- A line that can be scanned and has no comment gets one, after white space. -/
  | commented (before after : List String) {line gap : String} {tokens : List Token}
      (content : String) (hscan : Token.scan line = .ok tokens)
      (hcomment : ∀ token ∈ tokens, Line.isComment token = false)
      (hgap : ∀ c ∈ gap.toList, Text.isBlank c = true) (hne : gap ≠ "") :
      Relaid width file id (before ++ line :: after)
        (before ++ (line ++ gap ++ "//" ++ content) :: after)
  /-- A line that can be scanned gets another margin for the same depth. -/
  | indented (before after : List String) {margin margin' body : String} {depth : Nat}
      (hmargin : ∀ c ∈ margin.toList, c = '\t' ∨ c = ' ')
      (hmargin' : ∀ c ∈ margin'.toList, c = '\t' ∨ c = ' ')
      (hscans : Line.scans (margin ++ body) = true)
      (hdepth : Line.marginDepth? width (margin ++ body) = some depth)
      (hdepth' : Line.marginDepth? width (margin' ++ body) = some depth) :
      Relaid width file
        (Reference.afterIndenting file before.length margin.length margin'.length)
        (before ++ (margin ++ body) :: after) (before ++ (margin' ++ body) :: after)
  | trans {move further : Reference → Reference} {first second third : List String}
      (h : Relaid width file move first second) (h' : Relaid width file further second third) :
      Relaid width file (further ∘ move) first third

/-! ### Lines that match -/

namespace Line

variable {width : Nat} {file file' text text' : String} {index index' : Nat} {line line' : Line}
  {move : Reference → Reference} {columns : Nat → Nat}

theorem isContent_of_read (h : Line.read file index text = .ok line) :
    isContent text = !line.tokens.isEmpty := by
  cases hblank : text.toList.all Text.isBlank with
  | true =>
    rw [read_of_blank hblank] at h
    cases h
    simp [isContent, hblank]
  | false =>
    obtain ⟨tokens, hscan, rfl⟩ := exists_tokens_of_read h
    simp only [isContent, hblank, hscan, Bool.not_false, Bool.true_and]
    cases honly : isOnlyComment tokens with
    | true =>
      have hcomment : (ofTokens file index text tokens).isCommentOnly = isOnlyComment tokens :=
        isCommentOnly_ofTokens tokens
      rw [honly, isCommentOnly, Bool.and_eq_true] at hcomment
      rw [hcomment.1]
    | false =>
      have hne := Token.ne_nil_of_scanFrom hscan hblank
      rw [List.isEmpty_eq_false_iff.2 (tokens_ofTokens_ne_nil hne honly)]

theorem tokens_ofTokens_shift (tokens : List Token) :
    (ofTokens file' index' text' (tokens.map (Token.shift columns))).tokens =
      (ofTokens file index text tokens).tokens.map (Token.shift columns) := by
  rcases tokens.eq_nil_or_concat with rfl | ⟨init, last, rfl⟩
  · rfl
  · rw [List.concat_eq_append, List.map_append, List.map_singleton, ofTokens_append_singleton,
      ofTokens_append_singleton]
    change (if isComment last = true then _ else _ : Line).tokens = _
    split <;> simp

theorem tokens_ofTokens_comment {tokens : List Token} {comment : Token}
    (hcomment : ∀ token ∈ tokens, isComment token = false) (h : isComment comment = true) :
    (ofTokens file' index' text' (tokens ++ [comment])).tokens =
      (ofTokens file index text tokens).tokens := by
  rw [ofTokens_append_singleton, if_pos h]
  rcases tokens.eq_nil_or_concat with rfl | ⟨init, last, rfl⟩
  · rfl
  · rw [List.concat_eq_append] at hcomment ⊢
    rw [ofTokens_append_singleton, hcomment last (by simp)]
    rfl

/-! ### Depths -/

theorem depth_of_marginDepth? {depth : Nat} (h : marginDepth? width line.text = some depth) :
    line.depth width = .ok depth := by
  cases hdepth : line.depth width with
  | error diagnostic =>
    rw [marginDepth?_eq_none_of_depth hdepth] at h
    cases h
  | ok other =>
    rw [marginDepth?_of_depth hdepth] at h
    cases h
    rfl

theorem depth_congr
    (hmargin : Margin.ofText line'.text.toList = Margin.ofText line.text.toList)
    (hreference : line'.reference 1 = move (line.reference 1)) :
    line'.depth width = relocateOutcome move id (line.depth width) := by
  unfold depth
  rw [hmargin, hreference]
  dsimp only
  split <;> rfl

end Line

/-- What follows a character that is no margin does not belong to the margin. -/
theorem Margin.ofText_append {text : List Char} (more : List Char)
    (h : ∃ c ∈ text, c ≠ '\t' ∧ c ≠ ' ') : ofText (text ++ more) = ofText text := by
  induction text with
  | nil => simp at h
  | cons c cs ih =>
    have hrest (hc : c = '\t' ∨ c = ' ') : ∃ c ∈ cs, c ≠ '\t' ∧ c ≠ ' ' := by
      obtain ⟨d, hd, htab, hspace⟩ := h
      rcases List.mem_cons.1 hd with rfl | hd
      · exact absurd hc (not_or.2 ⟨htab, hspace⟩)
      · exact ⟨d, hd, htab, hspace⟩
    by_cases htab : c = '\t'
    · rw [List.cons_append, htab, ofText, ofText, ih (hrest (.inl htab))]
    · by_cases hspace : c = ' '
      · rw [List.cons_append, hspace, ofText, ofText, ih (hrest (.inr hspace))]
      · have hstop (rest : List Char) : ofText (c :: rest) = ⟨0, 0⟩ := by
          unfold ofText
          split <;> simp_all
        rw [List.cons_append, hstop, hstop]

namespace SourceReading

variable {width : Nat} {file text text' : String} {index index' : Nat} {line line' : Line}
  {move : Reference → Reference}

theorem matches_of_read (columns : Nat → Nat) (hread : Line.read file index text = .ok line)
    (hread' : Line.read file index' text' = .ok line')
    (htokens : line'.tokens = line.tokens.map (Token.shift columns))
    (hreference : ∀ column, line'.reference (columns column) = move (line.reference column))
    (hdepth : line.tokens ≠ [] →
      line'.depth width = relocateOutcome move id (line.depth width)) :
    Matches move width file (text, index) (text', index') := by
  by_cases hne : line.tokens = []
  · refine .silent ?_ ?_
    · rw [Line.isContent_of_read hread, hne]
      rfl
    · rw [Line.isContent_of_read hread', htokens, hne]
      rfl
  · exact .content hread hread' ⟨htokens, hne, hreference⟩ (hdepth hne)

theorem reference_of_read (h : Line.read file index text = .ok line) (column : Nat) :
    line.reference column = ⟨file, index + 1, column⟩ := by
  obtain ⟨tokens, -, rfl⟩ := Line.exists_tokens_of_read h
  obtain ⟨-, hfile, hnumber⟩ := Line.ofTokens_place file index text tokens
  rw [Line.reference, hfile, hnumber]

theorem matches_same (text : String)
    (h : ∀ column, move ⟨file, index + 1, column⟩ = ⟨file, index' + 1, column⟩) :
    Matches move width file (text, index) (text, index') := by
  cases hscan : Token.scan text with
  | error error =>
    refine @Matches.fault _ _ _ _ _ _ _
      ((Fault.scan error).located ⟨file, index + 1, error.column⟩) ?_ ?_
    · rw [Line.read, hscan]
    · rw [Line.read, hscan, Diagnostic.relocate]
      dsimp only [Fault.located]
      rw [h]
  | ok tokens =>
    have hread (index : Nat) : Line.read file index text =
        .ok (Line.ofTokens file index text tokens) := by rw [Line.read, hscan]
    have hshift : tokens.map (Token.shift id) = tokens := List.map_id _
    have hreference (column : Nat) : (Line.ofTokens file index' text tokens).reference column =
        move ((Line.ofTokens file index text tokens).reference column) := by
      rw [reference_of_read (hread index), reference_of_read (hread index'), h]
    refine matches_of_read id (hread index) (hread index') ?_ hreference ?_
    · rw [← Line.tokens_ofTokens_shift, hshift]
    · intro _
      apply Line.depth_congr _ (hreference 1)
      rw [(Line.ofTokens_place _ _ _ _).1, (Line.ofTokens_place _ _ _ _).1]

theorem matches_commented {gap : String} {tokens : List Token} (content : String) (index : Nat)
    (hscan : Token.scan text = .ok tokens)
    (hcomment : ∀ token ∈ tokens, Line.isComment token = false)
    (hgap : ∀ c ∈ gap.toList, Text.isBlank c = true) (hne : gap ≠ "") :
    Matches id width file (text, index) (text ++ gap ++ "//" ++ content, index) := by
  have hkinds : ∀ token ∈ tokens, token.kind.isComment = false := fun token htoken =>
    (Line.isComment_eq token).symm.trans (hcomment token htoken)
  have hgapNe : gap.toList ≠ [] := fun hnil => hne (String.toList_inj.1 hnil)
  obtain ⟨comment, hkind, hscan'⟩ :=
    Token.exists_scanFrom_comment hscan hkinds hgap hgapNe content.toList
  have htext : (text ++ gap ++ "//" ++ content).toList =
      text.toList ++ (gap.toList ++ '/' :: '/' :: content.toList) := by
    simp [String.toList_append]
  have hread : Line.read file index text = .ok (Line.ofTokens file index text tokens) := by
    rw [Line.read, hscan]
  have hread' : Line.read file index (text ++ gap ++ "//" ++ content) =
      .ok (Line.ofTokens file index (text ++ gap ++ "//" ++ content) (tokens ++ [comment])) := by
    rw [Line.read, Token.scan, htext, hscan']
  have hreference (column : Nat) :
      (Line.ofTokens file index (text ++ gap ++ "//" ++ content)
        (tokens ++ [comment])).reference column =
        (Line.ofTokens file index text tokens).reference column := by
    rw [reference_of_read hread, reference_of_read hread']
  refine matches_of_read id hread hread' ?_ hreference fun htokens => ?_
  · rw [Line.tokens_ofTokens_comment hcomment ((Line.isComment_eq comment).trans hkind)]
    exact (List.map_id _).symm
  · have hblank : text.toList.all Text.isBlank = false := by
      by_contra hblank
      rw [Line.read_of_blank (eq_true_of_ne_false hblank)] at hread
      injection hread with hline
      exact htokens (by rw [← hline])
    obtain ⟨c, hc, hnot⟩ := List.all_eq_false.1 hblank
    apply Line.depth_congr _ (hreference 1)
    rw [(Line.ofTokens_place _ _ _ _).1, (Line.ofTokens_place _ _ _ _).1, htext]
    apply Margin.ofText_append
    refine ⟨c, hc, ?_, ?_⟩
    · rintro rfl
      exact hnot rfl
    · rintro rfl
      exact hnot rfl

/-- A line with another margin for the same depth. -/
theorem matches_indented {margin margin' body : String} {depth : Nat} (index : Nat)
    (hmargin : ∀ c ∈ margin.toList, c = '\t' ∨ c = ' ')
    (hmargin' : ∀ c ∈ margin'.toList, c = '\t' ∨ c = ' ')
    (hscans : Line.scans (margin ++ body) = true)
    (hdepth : Line.marginDepth? width (margin ++ body) = some depth)
    (hdepth' : Line.marginDepth? width (margin' ++ body) = some depth)
    (h : ∀ column, move ⟨file, index + 1, column⟩ =
      ⟨file, index + 1, column - margin.length + margin'.length⟩) :
    Matches move width file (margin ++ body, index) (margin' ++ body, index) := by
  obtain ⟨tokens, htokens⟩ : ∃ tokens, Token.scan (margin ++ body) = .ok tokens := by
    unfold Line.scans at hscans
    cases hscan : Token.scan (margin ++ body) with
    | ok tokens => exact ⟨tokens, rfl⟩
    | error => simp [hscan, Except.isOk, Except.toBool] at hscans
  have htokens' := Token.scan_other_margin hmargin hmargin' htokens
  have hread : Line.read file index (margin ++ body) =
      .ok (Line.ofTokens file index (margin ++ body) tokens) := by
    rw [Line.read, htokens]
  have hread' : Line.read file index (margin' ++ body) =
      .ok (Line.ofTokens file index (margin' ++ body)
        (tokens.map (Token.shift (· - margin.length + margin'.length)))) := by
    rw [Line.read, htokens']
  refine matches_of_read _ hread hread' (Line.tokens_ofTokens_shift tokens) (fun column => ?_)
    fun _ => ?_
  · rw [reference_of_read hread, reference_of_read hread', h]
  · rw [← (Line.ofTokens_place file index (margin ++ body) tokens).1] at hdepth
    rw [Line.depth_of_marginDepth? hdepth, Line.depth_of_marginDepth?
      ((Line.ofTokens_place file index (margin' ++ body) _).1.symm ▸ hdepth')]
    rfl

theorem forall₂_zipIdx {lines : List String} {start start' : Nat}
    (h : ∀ text, ∀ offset < lines.length,
      Matches move width file (text, start + offset) (text, start' + offset)) :
    List.Forall₂ (Matches move width file) (lines.zipIdx start) (lines.zipIdx start') := by
  induction lines generalizing start start' with
  | nil => exact .nil
  | cons line lines ih =>
    rw [List.zipIdx_cons, List.zipIdx_cons]
    refine .cons (h line 0 (Nat.succ_pos _)) (ih fun text offset hoffset => ?_)
    rw [Nat.add_assoc, Nat.add_assoc, Nat.add_comm 1]
    exact h text (offset + 1) (Nat.succ_lt_succ hoffset)

end SourceReading

/-! ### Sources that differ in layout -/

namespace Relaid

variable {grammar : Grammar} {width : Nat} {file : String} {move : Reference → Reference}
  {first second before after middle middle' : List String}

/-- Some lines are exchanged for others that are read alike, and the lines after them move. -/
theorem alike_splice
    (hbefore : ∀ index < before.length, ∀ column,
      move ⟨file, index + 1, column⟩ = ⟨file, index + 1, column⟩)
    (hmiddle : SourceReading.Alike grammar width file move (middle.zipIdx before.length)
      (middle'.zipIdx before.length))
    (hafter : ∀ offset column,
      move ⟨file, before.length + middle.length + offset + 1, column⟩ =
        ⟨file, before.length + middle'.length + offset + 1, column⟩) :
    SourceReading.Alike grammar width file move (before ++ (middle ++ after)).zipIdx
      (before ++ (middle' ++ after)).zipIdx := by
  simp only [List.zipIdx_append, Nat.zero_add]
  refine .append (SourceReading.alike_of_matches (SourceReading.forall₂_zipIdx ?_)) (.append hmiddle
    (SourceReading.alike_of_matches (SourceReading.forall₂_zipIdx ?_)))
  · intro text offset hoffset
    rw [Nat.zero_add]
    exact SourceReading.matches_same text (hbefore offset hoffset)
  · intro text offset _
    exact SourceReading.matches_same text (hafter offset)

theorem alike_exchanged {line line' : String}
    (hline : SourceReading.Matches move width file (line, before.length) (line', before.length))
    (hmove : ∀ index ≠ before.length, ∀ column,
      move ⟨file, index + 1, column⟩ = ⟨file, index + 1, column⟩) :
    SourceReading.Alike grammar width file move (before ++ line :: after).zipIdx
      (before ++ line' :: after).zipIdx := by
  refine @alike_splice grammar width file move before after [line] [line']
    (fun index hindex => hmove index (Nat.ne_of_lt hindex)) ?_ (fun offset => hmove _ ?_)
  · exact SourceReading.alike_of_matches (.cons hline .nil)
  · rw [List.length_singleton]
    omega

theorem alike_inserted {line : String} (h : Line.isContent line = false) :
    SourceReading.Alike grammar width file (Reference.afterInsertion file before.length)
      (before ++ after).zipIdx (before ++ line :: after).zipIdx := by
  refine @alike_splice grammar width file _ before after [] [line] ?_
    (SourceReading.alike_inserted _ h) ?_
  · intro index hindex column
    simp only [Reference.afterInsertion, true_and]
    rw [if_neg (by omega)]
  · intro offset column
    simp only [Reference.afterInsertion, true_and, List.length_nil, List.length_singleton]
    rw [if_pos (by omega)]
    congr 1
    omega

theorem alike_removed {line : String} (h : Line.isContent line = false) :
    SourceReading.Alike grammar width file (Reference.afterRemoval file before.length)
      (before ++ line :: after).zipIdx (before ++ after).zipIdx := by
  refine @alike_splice grammar width file _ before after [line] [] ?_
    (SourceReading.alike_removed _ h) ?_
  · intro index hindex column
    simp only [Reference.afterRemoval, true_and]
    rw [if_neg (by omega)]
  · intro offset column
    simp only [Reference.afterRemoval, true_and, List.length_nil, List.length_singleton]
    rw [if_pos (by omega)]
    congr 1
    omega

/-- The lines of sources that differ in layout are read alike, one change after the other. -/
theorem alike (h : Relaid width file move first second) :
    SourceReading.Alike grammar width file move first.zipIdx second.zipIdx := by
  induction h with
  | same lines =>
    exact SourceReading.alike_of_matches (SourceReading.forall₂_zipIdx fun text _ _ =>
      SourceReading.matches_same text fun _ => rfl)
  | inserted before after h => exact alike_inserted h
  | removed before after h => exact alike_removed h
  | commented before after content hscan hcomment hgap hne =>
    exact alike_exchanged (SourceReading.matches_commented content _ hscan hcomment hgap hne)
      fun _ _ _ => rfl
  | indented before after hmargin hmargin' hscans hdepth hdepth' =>
    refine alike_exchanged (SourceReading.matches_indented _ hmargin hmargin' hscans hdepth hdepth'
      fun column => ?_) fun index hindex column => ?_
    · simp [Reference.afterIndenting]
    · simp only [Reference.afterIndenting, true_and]
      rw [if_neg (by omega)]
  | trans _ _ ih ih' => exact ih.trans ih'

/-- Sources that differ in layout are read as the same, but for references and comments. -/
theorem exists_comments (h : Relaid width file move first second) (grammar : Grammar)
    (progress : Progress) (comments : List Comment) :
    ∃ comments', (progress.relocate move comments).readSource grammar width file second =
      (progress.readSource grammar width file first).relocate move comments' := by
  have halike : SourceReading.Alike grammar width file move first.zipIdx second.zipIdx := h.alike
  obtain ⟨comments', hread⟩ := halike ⟨progress, Indentation.start⟩ comments
  exact ⟨comments', congrArg SourceReading.progress hread⟩

/-- An enumeration with a blank line in it. -/
def sizes : List String := ["enum Size", "", "    Small", "    Large"]

/-- The blank line is gone, there are two comments, and one margin is a tab. -/
def sizesRelaid : List String := ["enum Size", "  // both", "    Small // half", "\tLarge"]

theorem exists_relaid_sizes : ∃ move, Relaid 4 "test.lexy" move sizes sizesRelaid := by
  have hremoved := @removed 4 "test.lexy" ["enum Size"] ["    Small", "    Large"] ""
    (by decide +kernel)
  have hinserted := @inserted 4 "test.lexy" ["enum Size"] ["    Small", "    Large"] "  // both"
    (by decide +kernel)
  obtain ⟨tokens, hscan, hall⟩ : ∃ tokens, Token.scan "    Small" = .ok tokens ∧
      ∀ token ∈ tokens, Line.isComment token = false := by
    have hok : (Token.scan "    Small").toOption.any (·.all (!Line.isComment ·)) = true := by
      decide +kernel
    cases hscan : Token.scan "    Small" with
    | ok tokens => exact ⟨tokens, rfl, by simpa [hscan, Except.toOption] using hok⟩
    | error => simp [hscan, Except.toOption] at hok
  have hcommented := @commented 4 "test.lexy" ["enum Size", "  // both"] ["    Large"] "    Small"
    " " tokens " half" hscan hall (by simp [Text.isBlank]) (by decide)
  have hindented := @indented 4 "test.lexy" ["enum Size", "  // both", "    Small // half"] []
    "    " "\t" "Large" 1 (by simp) (by simp) (by decide +kernel) (by decide +kernel)
    (by decide +kernel)
  have hline : "    Small" ++ " " ++ "//" ++ " half" = "    Small // half" := by decide +kernel
  have hspaces : "    " ++ "Large" = "    Large" := by decide +kernel
  have htab : "\t" ++ "Large" = "\tLarge" := by decide +kernel
  rw [hline] at hcommented
  rw [hspaces, htab] at hindented
  exact ⟨_, ((hremoved.trans hinserted).trans hcommented).trans hindented⟩

theorem exists_comments_sizes :
    ∃ move, Relaid 4 "test.lexy" move sizes sizesRelaid ∧
      ∃ comments', (({} : Progress).relocate move []).readSource .standard 4 "test.lexy"
        sizesRelaid =
          (({} : Progress).readSource .standard 4 "test.lexy" sizes).relocate move comments' := by
  obtain ⟨move, h⟩ := exists_relaid_sizes
  exact ⟨move, h, exists_comments h .standard {} []⟩

end Relaid

end DecisionLang
