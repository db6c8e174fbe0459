import DecisionLang.Proofs.Reading.Source

/-!
# Lines that are refused

A receiver that refuses a line has changed nothing: one error is logged, and numbers may have been
used up. From then on nobody receives lines at any deeper depth, whatever lines follow, until one
comes that is not deeper than the refused line. A line that is not refused adds one construct, or
is a malformed inclusion. Main statement: `Source.refusal_exact`.
-/

namespace DecisionLang

/-- One error has been logged for an owner. Numbers may have been used up, all else is as it was. -/
structure Progress.Fails (progress progress' : Progress) (owner : Option String) : Prop where
  document : progress'.document = progress.document
  nextId : progress.nextId ≤ progress'.nextId
  entries : ∃ diagnostic : Diagnostic,
    progress'.log.entries = progress.log.entries ++ [diagnostic.entry owner]
  owner : progress'.log.owner = progress.log.owner

/-! ### Depths that are passed over -/

namespace Indentation

/-- Nobody receives lines that are deeper than some depth. -/
def PassesBelow (indentation : Indentation) (depth : Nat) : Prop :=
  ∀ deeper, depth < deeper → indentation.receiver? deeper = none

variable {indentation : Indentation} {depth limit deeper : Nat}

/-- A line that is passed over or refused opens nothing, and keeps what is open at lesser depths. -/
theorem receiver?_set_close (hmost : depth ≤ indentation.maxDepth) :
    ((indentation.close depth).set (depth + 1) none).receiver? deeper =
      if deeper ≤ depth then indentation.receiver? deeper else none := by
  have htaken := length_take_entries hmost
  rw [receiver?, entries_set_close hmost]
  split
  · next hle =>
    rw [List.getElem?_append_left (by omega), List.getElem?_take_of_lt (Nat.lt_succ_of_le hle),
      receiver?]
  · rw [List.getElem?_append_right (by omega)]
    cases deeper - (indentation.entries.take (depth + 1)).length <;> rfl

theorem passesBelow_set_close (hmost : depth ≤ indentation.maxDepth) :
    ((indentation.close depth).set (depth + 1) none).PassesBelow depth := by
  intro deeper hdeeper
  rw [receiver?_set_close hmost, if_neg (Nat.not_le_of_lt hdeeper)]

theorem PassesBelow.set_close (h : indentation.PassesBelow limit)
    (hmost : depth ≤ indentation.maxDepth) :
    ((indentation.close depth).set (depth + 1) none).PassesBelow limit := by
  intro deeper hdeeper
  rw [receiver?_set_close hmost, h deeper hdeeper, ite_self]

end Indentation

/-! ### Lines that are let in -/

namespace Line

variable {width : Nat} {text : String} {depth : Nat}

theorem exists_of_scannedDepth? (file : String) (index : Nat)
    (h : scannedDepth? width text = some depth) :
    text.toList.all Text.isBlank = false ∧
      ∃ line, Line.read file index text = .ok line ∧ line.tokens ≠ [] ∧
        line.depth width = .ok depth := by
  unfold scannedDepth? contentDepth? at h
  split at h
  · next hscans =>
    split at h
    · next hcontent =>
      obtain ⟨tokens, hscan⟩ : ∃ tokens, Token.scan text = .ok tokens := by
        unfold scans at hscans
        cases hscan : Token.scan text with
        | ok tokens => exact ⟨tokens, rfl⟩
        | error => simp [hscan, Except.isOk, Except.toBool] at hscans
      simp only [isContent, hscan, Bool.and_eq_true, Bool.not_eq_true'] at hcontent
      obtain ⟨hblank, hcomment⟩ := hcontent
      have hne := Token.ne_nil_of_scanFrom hscan hblank
      refine ⟨hblank, ofTokens file index text tokens, by rw [Line.read, hscan],
        tokens_ofTokens_ne_nil hne hcomment, ?_⟩
      rw [← (ofTokens_place file index text tokens).1] at h
      cases hdepth : (ofTokens file index text tokens).depth width with
      | error =>
        rw [marginDepth?_eq_none_of_depth hdepth] at h
        cases h
      | ok other =>
        rw [marginDepth?_of_depth hdepth] at h
        cases h
        rfl
    · cases h
  · cases h

theorem scannedDepth?_of_depth {file : String} {index : Nat} {line : Line}
    (hblank : text.toList.all Text.isBlank = false) (hline : Line.read file index text = .ok line)
    (hcomment : line.isCommentOnly = false) (hdepth : line.depth width = .ok depth) :
    scannedDepth? width text = some depth := by
  obtain ⟨tokens, hscan, rfl⟩ := Line.exists_tokens_of_read hline
  have hmargin := marginDepth?_of_depth hdepth
  rw [(ofTokens_place file index text tokens).1] at hmargin
  rw [isCommentOnly_ofTokens] at hcomment
  have hscans : scans text = true := by rw [scans, hscan]; rfl
  have hcontent : isContent text = true := by simp [isContent, hscan, hcomment, hblank]
  rw [scannedDepth?, if_pos hscans, contentDepth?, if_pos hcontent, hmargin]

theorem isCommentOnly_of_tokens {line : Line} (h : line.tokens ≠ []) :
    line.isCommentOnly = false := by
  simp [isCommentOnly, h]

end Line

namespace SourceReading

variable {grammar : Grammar} {width : Nat} {file text : String} {index depth limit : Nat}
  {reading : SourceReading}

/-- A line with content at an allowed depth is let in there. -/
theorem exists_enter (grammar : Grammar) (file : String) (index : Nat)
    (hdepth : Line.scannedDepth? width text = some depth)
    (hmost : depth ≤ reading.indentation.maxDepth) :
    ∃ line, Line.read file index text = .ok line ∧ line.tokens ≠ [] ∧
      reading.readLine grammar width file text index = reading.enter grammar line depth := by
  obtain ⟨hblank, line, hline, htokens, hdepth⟩ :=
    Line.exists_of_scannedDepth? file index hdepth
  refine ⟨line, hline, htokens, ?_⟩
  rw [readLine, if_neg (ne_true_of_eq_false hblank), hline]
  dsimp only
  rw [Line.isCommentOnly_of_tokens htokens, if_neg Bool.false_ne_true, place, hdepth]
  exact if_neg (Nat.not_lt_of_le hmost)

theorem enter_of_none {line : Line} (hreceiver : reading.indentation.receiver? depth = none) :
    reading.enter grammar line depth =
      ⟨reading.progress, (reading.indentation.close depth).set (depth + 1) none⟩ := by
  rw [enter, Indentation.enter, hreceiver]

theorem enter_of_some {line : Line} {path : SlotPath}
    (hreceiver : reading.indentation.receiver? depth = some path) :
    reading.enter grammar line depth =
      give ⟨reading.progress, reading.indentation.close depth⟩ grammar line depth path := by
  rw [enter, Indentation.enter, hreceiver]

/-- A line that is not let in changes nothing about who receives which lines. -/
theorem indentation_readLine
    (hidle : ∀ depth, Line.scannedDepth? width text = some depth →
      reading.indentation.maxDepth < depth)
    (hleads : reading.indentation.Leads (.document reading.progress.document)) :
    (reading.readLine grammar width file text index).indentation = reading.indentation := by
  have hmove : Move width file text index reading
      (reading.readLine grammar width file text index) := move_readLine hleads
  cases hmove with
  | idle _ hindentation => exact hindentation
  | passed hdepth hmost | fruitless hdepth hmost | grown _ hdepth hmost =>
    exact absurd (hidle _ hdepth) (Nat.not_lt_of_le hmost)

end SourceReading

/-! ### What an answer costs -/

namespace Receiver

variable {grammar : Grammar} {line : Line} {document : Document} {received : Received Receiver}
  {next after : Nat}

theorem Accepts.after_eq (h : Accepts grammar line (.document document) next received after) :
    after = next := by
  cases h <;> rfl

end Receiver

namespace Progress

variable {grammar : Grammar} {line : Line} {progress progress' : Progress} {path : SlotPath}
  {below : Receiver} {owner : Option String} {answer : Answer}

/-- A line with tokens that is given to a receiver is refused, or adds one construct, or is a
malformed inclusion. -/
inductive Effect (line : Line) (path : SlotPath) (owner : Option String) (below : Receiver)
    (progress progress' : Progress) : Answer → Prop
  | refused (hfails : progress.Fails progress' owner) :
      Effect line path owner below progress progress' .ignore
  | malformed (hline : line.IsMalformedInclusion) (hpath : path = [])
      (hprogress : progress' = progress.report owner
        ((Fault.wrongForm "include" "include \"file\"").located line.start)) :
      Effect line path owner below progress progress' .leaf
  | grown {answer : Answer} {address : Address} {trace : Trace} (hanswer : answer ≠ .ignore)
      (hhosts : below.Hosts address)
      (hgrows : (Receiver.document progress.document).Grows (.document progress'.document)
        (address.within path) trace)
      (htrace : trace.ComesFrom line) : Effect line path owner below progress progress' answer

theorem exists_take? (grammar : Grammar) (line : Line) (owner : Option String)
    (hbelow : (Receiver.document progress.document).at? path = some below) :
    ∃ progress' answer, progress.take? grammar line path owner = some (progress', answer) := by
  rcases take?_cases grammar line hbelow owner with
    ⟨_, _, _, htake⟩ | ⟨_, _, _, _, _, htake⟩ <;> exact ⟨_, _, htake⟩

theorem effect_of_take? (htokens : line.tokens ≠ [])
    (hbelow : (Receiver.document progress.document).at? path = some below)
    (h : progress.take? grammar line path owner = some (progress', answer)) :
    Effect line path owner below progress progress' answer := by
  rcases take?_cases grammar line hbelow owner with
    ⟨diagnostic, nextId, hle, htake⟩ | ⟨received, document, nextId, htaken, hdocument, htake⟩
  · rw [htake] at h
    cases h
    exact .refused ⟨rfl, hle, ⟨diagnostic, rfl⟩, rfl⟩
  · rw [htake] at h
    cases h
    cases htaken.outcome with
    | skipped hempty => exact absurd hempty htokens
    | malformed hline hpath hreceiver hreceived =>
      cases hreceiver
      cases hreceived
      cases hdocument
      subst hpath
      cases htaken with
      | here haccepted =>
        cases haccepted.after_eq
        exact .malformed hline rfl rfl
    | grown hbelow' hhosts hgrows htrace hanswer =>
      cases hbelow.symm.trans hbelow'
      obtain ⟨hkept, _⟩ := foldl_remark owner received.remarks { progress with document, nextId }
      rw [hdocument] at hgrows
      refine .grown ?_ hhosts (by rwa [hkept]) htrace
      rcases hanswer with hleaf | ⟨_, _, _, hchild, _⟩
      · simp [hleaf]
      · simp [hchild]

end Progress

namespace Source

/-- A line that is let in at some depth goes to the receiver of that depth, which answers. -/
structure Asks (source : Source) (index depth : Nat) (path : SlotPath) (line : Line)
    (answer : Answer) : Prop where
  hline : source.lines[index]?.map (Line.read source.file index) = some (.ok line)
  hdepth : source.scannedDepth? index = some depth
  hmost : depth ≤ (source.readingAfter index).indentation.maxDepth
  hreceiver : (source.readingAfter index).indentation.receiver? depth = some path
  htake : (source.readingAfter index).progress.take? source.grammar line path
    ((source.readingAfter index).progress.ownerAt path.head?) =
      some ((source.readingAfter (index + 1)).progress, answer)
  hindentation : (source.readingAfter (index + 1)).indentation =
    ((source.readingAfter index).indentation.close depth).after depth path answer

/-- A line that can be scanned, is not a comment and is indented by whole levels. -/
def Measures (source : Source) (index depth : Nat) : Prop :=
  ∃ text line, source.lines[index]? = some text ∧ Line.read source.file index text = .ok line ∧
    line.isCommentOnly = false ∧ line.depth source.width = .ok depth

/-- Up to the next line that is not deeper than some depth, all deeper lines are passed over. -/
def SkipsBelow (source : Source) (index depth : Nat) : Prop :=
  ∀ later deeper, index < later →
    (∀ between, index < between → between < later →
      ∀ d, source.scannedDepth? between = some d → depth < d) →
    source.Measures later deeper → depth < deeper →
    deeper ≤ (source.readingAfter later).indentation.maxDepth →
    (source.readingAfter (later + 1)).progress = (source.readingAfter later).progress

variable {source : Source} {index depth count deeper : Nat} {path : SlotPath} {line : Line}
  {answer : Answer} {text : String}

theorem exists_enter (hdepth : source.scannedDepth? index = some depth)
    (hmost : depth ≤ (source.readingAfter index).indentation.maxDepth) :
    ∃ line, source.lines[index]?.map (Line.read source.file index) = some (.ok line) ∧
      line.tokens ≠ [] ∧ source.readingAfter (index + 1) =
        (source.readingAfter index).enter source.grammar line depth := by
  obtain ⟨text, htext, hscanned⟩ := Option.bind_eq_some_iff.1 hdepth
  obtain ⟨hlength, rfl⟩ := List.getElem?_eq_some_iff.1 htext
  obtain ⟨line, hline, htokens, hread⟩ :=
    SourceReading.exists_enter source.grammar source.file index hscanned hmost
  refine ⟨line, ?_, htokens, (readingAfter_succ hlength).trans hread⟩
  rw [htext, Option.map_some, hline]

/-- Whatever has been read, the receiver of an open depth takes or refuses a line. -/
theorem exists_asks (hdepth : source.scannedDepth? index = some depth)
    (hmost : depth ≤ (source.readingAfter index).indentation.maxDepth)
    (hreceiver : (source.readingAfter index).indentation.receiver? depth = some path) :
    ∃ line answer, source.Asks index depth path line answer := by
  obtain ⟨line, hline, _, hread⟩ := exists_enter hdepth hmost
  rw [SourceReading.enter_of_some hreceiver] at hread
  obtain ⟨below, hbelow, _⟩ := (leads source index).at? hreceiver
  obtain ⟨progress, answer, htake⟩ := Progress.exists_take? source.grammar line
    ((source.readingAfter index).progress.ownerAt path.head?) hbelow
  rw [SourceReading.give, htake] at hread
  refine ⟨line, answer, hline, hdepth, hmost, hreceiver, ?_, ?_⟩
  · rw [htake, hread]
  · rw [hread]

theorem Asks.tokens_ne_nil (h : source.Asks index depth path line answer) : line.tokens ≠ [] := by
  obtain ⟨line', hline, htokens, _⟩ := exists_enter h.hdepth h.hmost
  cases h.hline.symm.trans hline
  exact htokens

/-- Whether a line has been refused can be told from what is open after it. -/
theorem Asks.answer_eq_ignore_iff (h : source.Asks index depth path line answer) :
    answer = .ignore ↔
      (source.readingAfter (index + 1)).indentation.entries.getLast? = some none := by
  have hset := Indentation.entries_set_close h.hmost
  rw [h.hindentation]
  cases answer with
  | current | child | ignore => simp [Indentation.after, hset]
  | leaf =>
    have hentry := Indentation.receiver?_eq_some.1 h.hreceiver
    simp [Indentation.after, Indentation.close, List.getLast?_take, hentry]

theorem Asks.effect (h : source.Asks index depth path line answer) :
    ∃ below, (source.documentAfter index).at? path = some below ∧
      Progress.Effect line path ((source.readingAfter index).progress.ownerAt path.head?) below
        (source.readingAfter index).progress (source.readingAfter (index + 1)).progress answer := by
  obtain ⟨below, hbelow, _⟩ := (leads source index).at? h.hreceiver
  exact ⟨below, hbelow, Progress.effect_of_take? h.tokens_ne_nil hbelow h.htake⟩

/-! ### Lines below a refused one -/

theorem readingAfter_of_none (hdepth : source.scannedDepth? count = some deeper)
    (hmost : deeper ≤ (source.readingAfter count).indentation.maxDepth)
    (hnone : (source.readingAfter count).indentation.receiver? deeper = none) :
    source.readingAfter (count + 1) = ⟨(source.readingAfter count).progress,
      ((source.readingAfter count).indentation.close deeper).set (deeper + 1) none⟩ := by
  obtain ⟨line, _, _, hread⟩ := exists_enter hdepth hmost
  rw [hread, SourceReading.enter_of_none hnone]

/-- A line that is deeper than the refused one, or not let in at all, leaves all deeper depths
passed over. -/
theorem passesBelow_succ (h : (source.readingAfter count).indentation.PassesBelow depth)
    (hdeeper : ∀ d, source.scannedDepth? count = some d → depth < d) :
    (source.readingAfter (count + 1)).indentation.PassesBelow depth := by
  by_cases hlength : count < source.lines.length
  · by_cases hlet : ∃ d, source.scannedDepth? count = some d ∧
        d ≤ (source.readingAfter count).indentation.maxDepth
    · obtain ⟨d, hdepth, hmost⟩ := hlet
      rw [readingAfter_of_none hdepth hmost (h d (hdeeper d hdepth))]
      exact h.set_close hmost
    · rw [readingAfter_succ hlength, SourceReading.indentation_readLine ?_ (leads source count)]
      · exact h
      · intro d hdepth
        rw [← scannedDepth?_getElem hlength] at hdepth
        exact Nat.lt_of_not_le fun hmost => hlet ⟨d, hdepth, hmost⟩
  · rwa [readingAfter_succ_of_length_le (Nat.le_of_not_lt hlength)]

theorem passesBelow_of_lt {last : Nat}
    (h : (source.readingAfter (index + 1)).indentation.PassesBelow depth) (hlast : index < last)
    (hdeeper : ∀ between, index < between → between < last →
      ∀ d, source.scannedDepth? between = some d → depth < d) :
    (source.readingAfter last).indentation.PassesBelow depth := by
  induction last, hlast using Nat.le_induction with
  | base => exact h
  | succ last hlast ih =>
    refine passesBelow_succ (ih fun between hindex hbetween => ?_) ?_
    · exact hdeeper between hindex (Nat.lt_succ_of_lt hbetween)
    · exact hdeeper last hlast (Nat.lt_succ_self last)

theorem measures_of_scannedDepth? (h : source.scannedDepth? index = some depth) :
    source.Measures index depth := by
  obtain ⟨text, htext, hscanned⟩ := Option.bind_eq_some_iff.1 h
  obtain ⟨_, line, hline, htokens, hdepth⟩ := Line.exists_of_scannedDepth? source.file index hscanned
  exact ⟨text, line, htext, hline, Line.isCommentOnly_of_tokens htokens, hdepth⟩

theorem Measures.blank_or (h : source.Measures index depth) :
    source.readingAfter (index + 1) = source.readingAfter index ∨
      source.scannedDepth? index = some depth := by
  obtain ⟨text, line, htext, hline, hcomment, hdepth⟩ := h
  obtain ⟨hlength, rfl⟩ := List.getElem?_eq_some_iff.1 htext
  by_cases hblank : source.lines[index].toList.all Text.isBlank = true
  · rw [readingAfter_succ hlength, SourceReading.readLine, if_pos hblank]
    exact .inl rfl
  · rw [scannedDepth?_getElem hlength]
    exact .inr (Line.scannedDepth?_of_depth (eq_false_of_ne_true hblank) hline hcomment hdepth)

theorem Asks.skipsBelow (h : source.Asks index depth path line .ignore) :
    source.SkipsBelow index depth := by
  intro later deeper hlater hbetween hmeasures hdeeper hmost
  rcases hmeasures.blank_or with hblank | hdepth
  · rw [hblank]
  · have hrefused : (source.readingAfter (index + 1)).indentation.PassesBelow depth := by
      rw [h.hindentation]
      exact Indentation.passesBelow_set_close h.hmost
    have hpasses := passesBelow_of_lt hrefused hlater hbetween
    rw [readingAfter_of_none hdepth hmost (hpasses deeper hdeeper)]

/-! ### Lines that are not refused -/

/-- A line has added the construct at an address, and nothing besides. -/
def AddsOnly (source : Source) (index : Nat) (address : Address) : Prop :=
  source.Stands index address ∧ ∀ other, source.Adds index other ↔ other = address

theorem addsOnly_of_stands {address : Address} (h : source.Stands index address) :
    source.AddsOnly index address := by
  refine ⟨h, fun other => ⟨fun hother => ?_, ?_⟩⟩
  · cases h with
    | intro _ _ _ _ _ _ hgrows => exact hother.eq_of_grows hgrows
  · rintro rfl
    cases h with
    | intro _ _ _ _ _ _ hgrows =>
      refine ⟨hgrows.traceAt?_address, ?_⟩
      rw [hgrows.traceAt?_eq, if_pos rfl]
      exact Option.some_ne_none _

/-- Every line that is let in at an open depth is given to the receiver there. If the receiver
answers that deeper lines are to be passed over, the line has cost one error and nothing else, and
so will all deeper lines cost nothing, up to the next one that is not deeper. Any other answer means
that the line has added one construct or is a malformed inclusion, which costs one error. -/
theorem refusal_exact (source : Source) (index depth : Nat) (path : SlotPath) :
    (source.scannedDepth? index = some depth →
      depth ≤ (source.readingAfter index).indentation.maxDepth →
      (source.readingAfter index).indentation.receiver? depth = some path →
      ∃ line answer, source.Asks index depth path line answer) ∧
    ∀ line answer, source.Asks index depth path line answer →
      (answer = .ignore →
        (source.readingAfter index).progress.Fails (source.readingAfter (index + 1)).progress
          ((source.readingAfter index).progress.ownerAt path.head?) ∧
        source.SkipsBelow index depth) ∧
      (answer ≠ .ignore →
        (∃ address, source.AddsOnly index address) ∨
        line.IsMalformedInclusion ∧ path = [] ∧
          (source.readingAfter (index + 1)).progress =
            (source.readingAfter index).progress.report none
              ((Fault.wrongForm "include" "include \"file\"").located line.start)) := by
  refine ⟨exists_asks, fun line answer hasks => ?_⟩
  obtain ⟨below, hbelow, heffect⟩ := hasks.effect
  constructor
  · rintro rfl
    refine ⟨?_, hasks.skipsBelow⟩
    cases heffect with
    | refused hfails => exact hfails
    | grown hanswer => exact absurd rfl hanswer
  · intro hanswer
    cases heffect with
    | refused => exact absurd rfl hanswer
    | malformed hline hpath hprogress =>
      subst hpath
      exact .inr ⟨hline, rfl, hprogress⟩
    | grown _ hhosts hgrows htrace =>
      exact .inl ⟨_, addsOnly_of_stands
        (.intro hasks.hline hasks.hdepth hasks.hreceiver hbelow hhosts rfl hgrows htrace)⟩

/-- A definition without a name, with deeper and less deep lines below it. -/
def unnamedDefinition : Source where
  grammar := .standard
  width := 2
  file := "test.lexy"
  start := {}
  lines := ["enum Size", "  Small", "function A", "  results", "    number", "      if true",
    "        number X", "      number X", "    number Y"]

/-- The lines below the definition are passed over, the next definition is added. -/
theorem refusal_exact_unnamedDefinition :
    (unnamedDefinition.readingAfter 4).progress.Fails (unnamedDefinition.readingAfter 5).progress
      (some "A") ∧
    unnamedDefinition.SkipsBelow 4 2 ∧
    unnamedDefinition.Measures 6 4 ∧ 4 ≤ (unnamedDefinition.readingAfter 6).indentation.maxDepth ∧
    ∃ address, unnamedDefinition.AddsOnly 8 address := by
  obtain ⟨hasked, hcosts⟩ := unnamedDefinition.refusal_exact 4 2 [1, 1]
  obtain ⟨line, answer, hasks⟩ := hasked (by decide +kernel) (by decide +kernel) (by decide +kernel)
  obtain ⟨hfails, hskips⟩ := (hcosts line answer hasks).1
    (hasks.answer_eq_ignore_iff.2 (by decide +kernel))
  refine ⟨?_, hskips, measures_of_scannedDepth? (by decide +kernel), by decide +kernel, ?_⟩
  · have howner : (unnamedDefinition.readingAfter 4).progress.ownerAt (some 1) = some "A" := by
      decide +kernel
    rwa [List.head?_cons, howner] at hfails
  · obtain ⟨hasked, hcosts⟩ := unnamedDefinition.refusal_exact 8 2 [1, 1]
    obtain ⟨line, answer, hasks⟩ :=
      hasked (by decide +kernel) (by decide +kernel) (by decide +kernel)
    have htaken : answer ≠ .ignore := by
      rw [ne_eq, hasks.answer_eq_ignore_iff]
      decide +kernel
    rcases (hcosts line answer hasks).2 htaken with hadds | ⟨_, hpath, _⟩
    · exact hadds
    · cases hpath

end Source

end DecisionLang
