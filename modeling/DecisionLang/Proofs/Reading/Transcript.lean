import DecisionLang.Proofs.Reading.Placement

/-!
# Sources read without errors

If no error has been logged, lines and constructs correspond to each other one to one, in the same
order, and constructs stand below one another as their lines do. A line with content adds
something unless an error is logged for it, or it is passed over, which only happens below a line
with an error. Main statement: `Source.transcribes_of_hasErrors_eq_false`.
-/

namespace DecisionLang

/-! ### Lists without gaps -/

namespace Receiver

variable {receiver : Receiver} {first second : Site}

theorem map_getElem?_ne_none {α β : Type} {items : List α} {f : α → β} {index index' : Nat}
    (hlt : index < index') (h : items[index']?.map f ≠ none) : items[index]?.map f ≠ none := by
  simp only [ne_eq, Option.map_eq_none_iff, List.getElem?_eq_none_iff, Nat.not_le] at h ⊢
  exact Nat.lt_trans hlt h

theorem trace?_ne_none_of_before (hbefore : first.Before second)
    (h : receiver.trace? second ≠ none) : receiver.trace? first ≠ none := by
  cases hbefore with
  | declaration hlt =>
    cases receiver with
    | document => exact map_getElem?_ne_none hlt h
    | _ => simp [trace?] at h
  | inclusion hlt =>
    cases receiver with
    | document => exact map_getElem?_ne_none hlt h
    | _ => simp [trace?] at h
  | entry hlt =>
    cases receiver with
    | definitions | enumeration | table | record | assignments | validationTable | expectedErrors =>
      exact map_getElem?_ne_none hlt h
    | _ => simp [trace?] at h
  | statement hlt =>
    cases receiver with
    | body => exact map_getElem?_ne_none hlt h
    | _ => simp [trace?] at h
  | alternative hlt =>
    cases receiver with
    | expression item =>
      cases item with
      | ifThen => exact map_getElem?_ne_none hlt h
      | _ => simp [trace?] at h
    | _ => simp [trace?] at h
  | case hlt =>
    cases receiver with
    | expression item =>
      cases item with
      | switch => exact map_getElem?_ne_none hlt h
      | _ => simp [trace?] at h
    | _ => simp [trace?] at h

theorem traceAt?_ne_none_of_before {holder : SlotPath} (hbefore : first.Before second)
    (h : receiver.traceAt? ⟨holder, second⟩ ≠ none) : receiver.traceAt? ⟨holder, first⟩ ≠ none := by
  unfold traceAt? at h ⊢
  cases hholder : receiver.at? holder with
  | none => simp [hholder] at h
  | some below =>
    rw [hholder] at h
    exact trace?_ne_none_of_before hbefore h

theorem isBare_document : (Receiver.document {}).IsBare :=
  isBare_of (by intro site; cases site <;> simp [trace?]) (by simp [slot?])

/-- What lies directly below the document is in none of its parts. -/
theorem Hosts.holder_of_document {document : Document} {address : Address}
    (h : (Receiver.document document).Hosts address) : address.holder = [] := by
  cases h with
  | site => rfl
  | alternative hlast => exact absurd rfl hlast

end Receiver

namespace Source

/-- The document after all lines. -/
def result (source : Source) : Receiver :=
  .document (source.start.readSource source.grammar source.width source.file source.lines).document

/-- A construct keeps the number of a line, or the message that is its only token. -/
def Records (source : Source) (index : Nat) : Trace → Prop
  | .line reference => reference.file = source.file ∧ reference.line = index + 1
  | .message text => ∃ line token,
    source.lines[index]?.map (Line.read source.file index) = some (.ok line) ∧
      line.tokens = [token] ∧ token.quoted? = some text

def HasContent (source : Source) (index : Nat) : Prop :=
  source.lines[index]?.any Line.isContent = true

/-- The constructs of the result are the lines with content: each line has one, each construct has
one, in lists they follow each other as the lines do, and they stand below one another as the lines
do. -/
structure Transcribes (source : Source) : Prop where
  adds : ∀ index, source.HasContent index → ∃! address, source.Adds index address
  added : ∀ address, source.result.traceAt? address ≠ none → ∃! index, source.Adds index address
  records : ∀ index address, source.Adds index address → source.HasContent index ∧
    ∃ trace, source.result.traceAt? address = some trace ∧ source.Records index trace
  ordered : ∀ index index' holder site site', source.Adds index ⟨holder, site⟩ →
    source.Adds index' ⟨holder, site'⟩ → site.Before site' → index < index'
  nested : ∀ index address, source.Adds index address → ∃ depth, source.depth? index = some depth ∧
    (depth = 0 → address.holder = []) ∧
    ∀ shallower, depth = shallower + 1 → ∃ upper, source.IsAbove upper index depth ∧
      source.depth? upper = some shallower ∧ source.StandsBelow upper index address

variable {source : Source} {index count depth : Nat} {address : Address}

theorem documentAfter_length : source.documentAfter source.lines.length = source.result := by
  rw [documentAfter, readingAfter_length, result]

theorem Adds.traceAt?_result {trace : Trace} (h : source.Adds index address)
    (hafter : (source.documentAfter (index + 1)).traceAt? address = some trace) :
    source.result.traceAt? address = some trace := by
  rw [← documentAfter_length]
  exact traceAt?_of_le h.length hafter

theorem hasContent_of_depth? (h : source.depth? index = some depth) : source.HasContent index := by
  unfold depth? at h
  unfold HasContent
  cases hline : source.lines[index]? with
  | none => simp [hline] at h
  | some text =>
    rw [hline, Option.bind_some, Line.contentDepth?] at h
    split at h
    · next hcontent => simpa using hcontent
    · cases h

/-- Lines follow each other in the order of what they add to a list. -/
theorem Adds.lt_of_before {index' : Nat} {holder : SlotPath} {site site' : Site}
    (h : source.Adds index ⟨holder, site⟩) (h' : source.Adds index' ⟨holder, site'⟩)
    (hbefore : site.Before site') : index < index' := by
  have hsite := Receiver.traceAt?_ne_none_of_before hbefore h'.after
  obtain ⟨trace, htrace⟩ := Option.ne_none_iff_exists'.1 hsite
  by_contra hle
  have hne : index ≠ index' := by
    rintro rfl
    have hsame := congrArg Address.site (h.address_unique h')
    cases hbefore <;> cases hsame <;> omega
  have hbefore' := h.before
  rw [traceAt?_of_le (by omega) htrace] at hbefore'
  cases hbefore'

theorem Adds.holder_of_depth_zero (h : source.Adds index address)
    (hdepth : source.depth? index = some 0) : address.holder = [] := by
  obtain @⟨_, depth', path, below, relative, _, _, hscanned, hreceiver, hbelow, hhosts, haddress,
    _⟩ := h.stands
  rw [depth?_of_scannedDepth? hscanned] at hdepth
  cases hdepth
  have hroot := (leads source index).outermost
  rw [Indentation.receiver?_eq_some, ← List.head?_eq_getElem?, hroot] at hreceiver
  cases hreceiver
  cases hbelow
  rw [haddress, Address.within_nil]
  exact hhosts.holder_of_document

theorem Adds.records (h : source.Adds index address) :
    ∃ trace, source.result.traceAt? address = some trace ∧ source.Records index trace := by
  obtain @⟨line, _, _, _, _, trace, hline, _, _, _, _, _, hgrows, htrace⟩ := h.stands
  refine ⟨trace, h.traceAt?_result (by rw [hgrows.traceAt?_eq, if_pos rfl]), ?_⟩
  cases trace with
  | line reference =>
    obtain ⟨text, _, hread⟩ := Option.map_eq_some_iff.1 hline
    obtain ⟨tokens, _, rfl⟩ := Line.exists_tokens_of_read hread
    obtain ⟨_, hfile, hnumber⟩ := Line.ofTokens_place source.file index text tokens
    exact ⟨htrace.1.trans hfile, htrace.2.trans hnumber⟩
  | message text =>
    obtain ⟨token, htokens, hquoted⟩ := htrace
    exact ⟨line, token, hline, htokens, hquoted⟩

/-! ### Without errors -/

theorem reads_readingAfter {first last : Nat} (h : first ≤ last) :
    Progress.Reads source.grammar (source.readingAfter first).progress
      (source.readingAfter last).progress := by
  induction h with
  | refl => exact .refl
  | @step last _ ih =>
    by_cases hlast : last < source.lines.length
    · rw [readingAfter_succ hlast]
      exact ih.trans (SourceReading.reads_readLine _ _ _ _ _)
    · rwa [readingAfter_succ_of_length_le (Nat.le_of_not_lt hlast)]

def Clean (source : Source) : Prop :=
  (source.readingAfter source.lines.length).progress.log.hasErrors = false

theorem Clean.hasErrors (h : source.Clean) (hcount : count ≤ source.lines.length) :
    (source.readingAfter count).progress.log.hasErrors = false :=
  (reads_readingAfter hcount).continues.hasErrors_eq_false h

/-- Without errors no depth is passed over. -/
theorem Clean.none_notMem (h : source.Clean) (hcount : count ≤ source.lines.length) :
    none ∉ (source.readingAfter count).indentation.entries := by
  induction count with
  | zero => simp [readingAfter_zero, Indentation.start]
  | succ count ih =>
    have hearlier := ih (Nat.le_of_succ_le hcount)
    have hclean := h.hasErrors hcount
    have htaken {depth : Nat} :
        none ∉ (source.readingAfter count).indentation.entries.take (depth + 1) :=
      fun hmem => hearlier (List.mem_of_mem_take hmem)
    cases move hcount with
    | idle _ hindentation => rwa [hindentation]
    | passed _ _ _ _ hpassed =>
      rcases hpassed with hmem | herror
      · exact absurd hmem hearlier
      · rw [hclean] at herror
        cases herror
    | fruitless _ _ _ hentries =>
      rw [hentries]
      exact htaken
    | grown _ _ _ _ _ _ _ _ hentries hopened =>
      rw [hentries, List.mem_append, not_or]
      refine ⟨htaken, ?_⟩
      rcases hopened with rfl | ⟨_, _, _, rfl, _⟩ <;> simp

theorem HasContent.length (h : source.HasContent index) : index < source.lines.length := by
  unfold HasContent at h
  cases hline : source.lines[index]? with
  | none => simp [hline] at h
  | some text => exact (List.getElem?_eq_some_iff.1 hline).1

/-- Without errors every line with content adds something. -/
theorem Clean.exists_adds (h : source.Clean) (hcontent : source.HasContent index) :
    ∃ address, source.Adds index address := by
  have hlength := hcontent.length
  have hclean := h.hasErrors hlength
  have hnone := h.none_notMem (Nat.le_of_lt hlength)
  unfold HasContent at hcontent
  rw [List.getElem?_eq_getElem hlength, Option.any_some] at hcontent
  cases move hlength with
  | idle _ _ _ herror =>
    rw [herror hcontent] at hclean
    cases hclean
  | passed _ _ _ _ hpassed =>
    rcases hpassed with hmem | herror
    · exact absurd hmem hnone
    · rw [herror] at hclean
      cases hclean
  | fruitless _ _ _ _ herror =>
    rw [herror] at hclean
    cases hclean
  | @grown line depth path below relative trace opened _ _ _ _ _ _ hgrows =>
    refine ⟨relative.within path, hgrows.traceAt?_address, ?_⟩
    rw [documentAfter, hgrows.traceAt?_eq, if_pos rfl]
    exact Option.some_ne_none _

theorem Clean.scans (h : source.Clean) (hdepth : source.depth? index = some depth) :
    source.Scans index := by
  obtain ⟨address, hadds⟩ := h.exists_adds (hasContent_of_depth? hdepth)
  cases hadds.stands with
  | intro _ hscanned => exact (scannedDepth?_eq_some.1 hscanned).2

/-- Without errors a construct stands below one of the nearest earlier line that is less deep, and
that line is one level above. -/
theorem Clean.nested (h : source.Clean) (hadds : source.Adds index address)
    (hdepth : source.depth? index = some (depth + 1)) :
    ∃ upper, source.IsAbove upper index (depth + 1) ∧ source.depth? upper = some depth ∧
      source.StandsBelow upper index address := by
  obtain ⟨upper, path, hopened, hbelow⟩ := hadds.exists_openedBy hdepth
  have hupper := depth?_of_scannedDepth? hopened.hdepth
  refine ⟨upper, ⟨hopened.hearlier, ⟨depth, Nat.lt_succ_self depth, hupper⟩, ?_⟩, hupper, hbelow⟩
  intro between hbetween hlower d hd
  exact hopened.hsince between hbetween hlower d (scannedDepth?_eq_some.2 ⟨hd, h.scans hd⟩)

/-- Reading lines without errors loses no line, reads none twice and misplaces none. -/
theorem transcribes_of_hasErrors_eq_false (grammar : Grammar) (width : Nat) (file : String)
    (lines : List String)
    (h : (({} : Progress).readSource grammar width file lines).log.hasErrors = false) :
    Transcribes ⟨grammar, width, file, {}, lines⟩ := by
  generalize hsource : (⟨grammar, width, file, {}, lines⟩ : Source) = source
  have hstart : source.documentAfter 0 = .document {} := by rw [← hsource]; rfl
  have hclean : source.Clean := by
    rw [Clean, readingAfter_length, ← hsource]
    exact h
  refine ⟨fun index hcontent => ?_, fun address haddress => ?_, fun index address hadds => ?_,
    fun index index' holder site site' hadds hadds' hbefore => hadds.lt_of_before hadds' hbefore,
    fun index address hadds => ?_⟩
  · obtain ⟨address, hadds⟩ := hclean.exists_adds hcontent
    exact ⟨address, hadds, fun other hother => hadds.address_unique hother⟩
  · rw [← documentAfter_length] at haddress
    have hbare : (source.documentAfter 0).traceAt? address = none := by
      rw [hstart]
      exact Receiver.isBare_document address
    obtain ⟨index, _, hadds⟩ := Source.exists_adds haddress hbare
    exact ⟨index, hadds, fun other hother => hother.index_unique hadds⟩
  · cases hadds.stands with
    | intro _ hdepth =>
      exact ⟨hasContent_of_depth? (depth?_of_scannedDepth? hdepth), hadds.records⟩
  · cases hadds.stands with
    | @intro _ depth _ _ _ _ _ hscanned =>
      have hdepth := depth?_of_scannedDepth? hscanned
      refine ⟨depth, hdepth, ?_, ?_⟩
      · rintro rfl
        exact hadds.holder_of_depth_zero hdepth
      · rintro shallower rfl
        exact hclean.nested hadds hdepth

/-- An alternative that follows a comment and the lines of a branch. -/
def branches : List String :=
  ["enum Size", "  Small", "", "function A", "  code", "    if true", "      number X = 1",
    "    // otherwise", "    else", "      number X = 2", "include \"other\""]

theorem transcribes_branches :
    (({} : Progress).readSource .standard 2 "test.lexy" branches).log.hasErrors = false ∧
      Transcribes ⟨.standard, 2, "test.lexy", {}, branches⟩ ∧
      Adds ⟨.standard, 2, "test.lexy", {}, branches⟩ 8 ⟨[1, 2, 0], .alternative 0⟩ := by
  have hclean : (({} : Progress).readSource .standard 2 "test.lexy" branches).log.hasErrors =
      false := by decide +kernel
  exact ⟨hclean, transcribes_of_hasErrors_eq_false _ _ _ _ hclean,
    by decide +kernel, by decide +kernel⟩

end Source

end DecisionLang
