import DecisionLang.Proofs.Reading.Content
import DecisionLang.Proofs.Reading.Growth
import DecisionLang.Proofs.Reading.Run
import DecisionLang.Proofs.Token.Scanned
import DecisionLang.Reading.Source

/-!
# What a line of a source does

`SourceReading.Move` has one case for each thing that a line of a source can do to the document and
to the indentation. Every depth that is open leads to a receiver of lines, and the deeper of two
receivers is inside the shallower one: `Indentation.Leads` is the invariant, kept by every move.
Main statements: `SourceReading.move_readLine` and `SourceReading.receives_entered`.
-/

namespace DecisionLang

/-! ### Receivers that stay where they are -/

namespace Receiver

/-- Every receiver is still where it was, and alike. -/
def Keeps (root root' : Receiver) : Prop :=
  ∀ ⦃path below⦄, root.at? path = some below →
    ∃ below', root'.at? path = some below' ∧ below.Alike below'

theorem Alike.takesLines {receiver receiver' : Receiver} (h : receiver.Alike receiver') :
    receiver'.takesLines = receiver.takesLines := by
  cases h with
  | @expression item item' hhead =>
    have hblock (whole : Expr) : whole.head.isBlock = whole.isBlock := by cases whole <;> rfl
    rw [Receiver.takesLines, Receiver.takesLines, ← hblock item', hhead, hblock]
  | _ => rfl

theorem Keeps.refl (root : Receiver) : root.Keeps root := fun _ _ hbelow => ⟨_, hbelow, .refl _⟩

variable {document : Document} {comments : List Comment}

theorem traceAt?_withComments (address : Address) :
    (Receiver.document { document with comments }).traceAt? address =
      (Receiver.document document).traceAt? address := by
  obtain ⟨holder, site⟩ := address
  cases holder with
  | nil => cases site <;> rfl
  | cons slot path => rfl

theorem keeps_withComments :
    (Receiver.document document).Keeps (.document { document with comments }) := by
  intro path below hbelow
  cases path with
  | nil =>
    cases hbelow
    exact ⟨_, rfl, .document⟩
  | cons slot path => exact ⟨below, hbelow, .refl below⟩

end Receiver

/-! ### Open depths -/

namespace Indentation

/-- From a depth to a deeper one: the receiver there, if any, is inside the one at the shallower
depth. So there is none at a depth below one that is passed over. -/
def Reaches (shallower deeper : Option SlotPath) : Prop :=
  ∀ path, deeper = some path →
    ∃ shorter further, shallower = some shorter ∧ further ≠ [] ∧ path = shorter ++ further

/-- Every open depth leads to a receiver of lines or is passed over, the first one to the document
itself. -/
structure Leads (indentation : Indentation) (root : Receiver) : Prop where
  outermost : indentation.entries.head? = some (some [])
  chain : indentation.entries.Pairwise Reaches
  receives : ∀ path, some path ∈ indentation.entries →
    ∃ below, root.at? path = some below ∧ below.takesLines = true

variable {indentation indentation' : Indentation} {root root' : Receiver} {depth : Nat}
  {path further : SlotPath}

theorem receiver?_eq_some :
    indentation.receiver? depth = some path ↔ indentation.entries[depth]? = some (some path) := by
  unfold receiver?
  cases indentation.entries[depth]? <;> simp

theorem leads_start (document : Document) : start.Leads (.document document) where
  outermost := rfl
  chain := List.pairwise_singleton _ _
  receives path hpath := by
    obtain rfl : path = [] := by simpa [start] using hpath
    exact ⟨_, rfl, rfl⟩

theorem Reaches.none {shallower : Option SlotPath} : Reaches shallower none := nofun

theorem Reaches.append {shallower : Option SlotPath} (h : Reaches shallower (some path))
    (further : SlotPath) : Reaches shallower (some (path ++ further)) := by
  rintro _ ⟨⟩
  obtain ⟨shorter, between, hshallower, hbetween, rfl⟩ := h path rfl
  exact ⟨shorter, between ++ further, hshallower, by simp [hbetween], List.append_assoc ..⟩

theorem Leads.at? (h : indentation.Leads root)
    (hreceiver : indentation.receiver? depth = some path) :
    ∃ below, root.at? path = some below ∧ below.takesLines = true :=
  h.receives path (List.mem_of_getElem? (receiver?_eq_some.1 hreceiver))

/-- What is open after a line at some depth: nothing deeper, or one depth more, which is passed over
or leads further. -/
inductive Opens (indentation : Indentation) (depth : Nat) (root : Receiver) :
    List (Option SlotPath) → Prop
  | nothing : Opens indentation depth root []
  | passed : Opens indentation depth root [none]
  | inside {path further below} (hreceiver : indentation.receiver? depth = some path)
      (hfurther : further ≠ []) (hbelow : root.at? (path ++ further) = some below)
      (htakes : below.takesLines = true) : Opens indentation depth root [some (path ++ further)]

theorem Leads.next (depth : Nat) {opened : List (Option SlotPath)} (h : indentation.Leads root)
    (hkeeps : root.Keeps root') (hopened : indentation.Opens depth root' opened)
    (hentries : indentation'.entries = indentation.entries.take (depth + 1) ++ opened) :
    indentation'.Leads root' where
  outermost := by
    obtain ⟨rest, hrest⟩ := List.head?_eq_some_iff.1 h.outermost
    rw [hentries, hrest, List.take_succ_cons, List.cons_append, List.head?_cons]
  chain := by
    rw [hentries, List.pairwise_append]
    refine ⟨h.chain.sublist (List.take_sublist _ _), ?_, ?_⟩
    · cases hopened <;> simp
    · intro shallower hshallower deeper hdeeper
      cases hopened with
      | nothing => cases hdeeper
      | passed =>
        obtain rfl := List.mem_singleton.1 hdeeper
        exact .none
      | @inside path further below hreceiver hfurther =>
        obtain rfl := List.mem_singleton.1 hdeeper
        have hentry := receiver?_eq_some.1 hreceiver
        have hchain := h.chain.sublist (List.take_sublist (depth + 1) _)
        rw [List.take_add_one, hentry, Option.toList_some] at hshallower hchain
        rcases List.mem_append.1 hshallower with hearlier | hlast
        · have hreaches : Reaches shallower (some path) :=
            (List.pairwise_append.1 hchain).2.2 _ hearlier _ (List.mem_singleton_self _)
          exact hreaches.append further
        · obtain rfl := List.mem_singleton.1 hlast
          rintro _ ⟨⟩
          exact ⟨path, further, rfl, hfurther, rfl⟩
  receives path hpath := by
    rw [hentries] at hpath
    rcases List.mem_append.1 hpath with hold | hnew
    · obtain ⟨below, hbelow, htakes⟩ := h.receives path (List.mem_of_mem_take hold)
      obtain ⟨below', hbelow', halike⟩ := hkeeps hbelow
      exact ⟨below', hbelow', halike.takesLines.trans htakes⟩
    · cases hopened with
      | nothing => cases hnew
      | passed => cases List.mem_singleton.1 hnew
      | inside _ _ hbelow htakes =>
        cases List.mem_singleton.1 hnew
        exact ⟨_, hbelow, htakes⟩

theorem length_take_entries (hmost : depth ≤ indentation.maxDepth) :
    (indentation.entries.take (depth + 1)).length = depth + 1 := by
  have := indentation.length_entries_pos
  unfold maxDepth at hmost
  rw [List.length_take]
  omega

/-- Receivers after a line: those of depths that it has not closed, and the one that it opens. -/
theorem receiver?_of_entries (opened : List (Option SlotPath)) {deeper : Nat}
    (hmost : depth ≤ indentation.maxDepth) (hlength : opened.length ≤ 1)
    (hentries : indentation'.entries = indentation.entries.take (depth + 1) ++ opened)
    (h : indentation'.receiver? deeper = some path) :
    deeper ≤ depth ∧ indentation.receiver? deeper = some path ∨
      deeper = depth + 1 ∧ opened = [some path] := by
  have htaken := length_take_entries hmost
  rw [receiver?_eq_some, hentries] at h
  rcases Nat.lt_or_ge deeper (depth + 1) with hlt | hge
  · rw [List.getElem?_append_left (by omega), List.getElem?_take_of_lt hlt] at h
    exact .inl ⟨Nat.le_of_lt_succ hlt, receiver?_eq_some.2 h⟩
  · rw [List.getElem?_append_right (by omega), htaken] at h
    obtain ⟨hindex, _⟩ := List.getElem?_eq_some_iff.1 h
    have hzero : deeper - (depth + 1) = 0 := by omega
    rw [hzero] at h
    refine .inr ⟨by omega, ?_⟩
    obtain ⟨entry, rfl⟩ := List.length_eq_one_iff.1 (by omega : opened.length = 1)
    rw [List.getElem?_cons_zero] at h
    rw [Option.some.inj h]

theorem entries_set_close (h : depth ≤ indentation.maxDepth) (entry : Option SlotPath) :
    ((indentation.close depth).set (depth + 1) entry).entries =
      indentation.entries.take (depth + 1) ++ [entry] := by
  have hlength := indentation.length_entries_pos
  have hmax : indentation.maxDepth = indentation.entries.length - 1 := rfl
  simp only [set, close, List.take_take, Nat.min_self, List.length_take]
  rw [Nat.sub_eq_zero_of_le (by omega)]
  simp

end Indentation

/-! ### Moves -/

namespace Progress

variable {progress : Progress} {path : SlotPath} {below : Receiver}

theorem receiveAt?_isSome (grammar : Grammar) (line : Line) {receiver : Receiver}
    (hbelow : receiver.at? path = some below) :
    (receiver.receiveAt? grammar line path).isSome = true := by
  induction path generalizing receiver with
  | nil => rfl
  | cons slot path ih =>
    obtain ⟨inner, hinner, hbelow⟩ := Option.bind_eq_some_iff.1 hbelow
    obtain ⟨reading, hreading⟩ := Option.isSome_iff_exists.1 (ih hbelow)
    simp [Receiver.receiveAt?, hinner, hreading]

theorem take?_cases (grammar : Grammar) (line : Line)
    (hbelow : (Receiver.document progress.document).at? path = some below) (owner : Option String) :
    (∃ diagnostic nextId, progress.nextId ≤ nextId ∧ progress.take? grammar line path owner =
      some (({ progress with nextId } : Progress).report owner diagnostic, .ignore)) ∨
    ∃ received document nextId,
      Receiver.Takes grammar line path (.document progress.document) progress.nextId received
        nextId ∧
      received.receiver = .document document ∧
      progress.take? grammar line path owner =
        some (received.remarks.foldl (remark owner) { progress with document, nextId },
          received.answer) := by
  obtain ⟨reading, hreading⟩ := Option.isSome_iff_exists.1
    (receiveAt?_isSome grammar line hbelow)
  unfold take?
  rw [hreading]
  dsimp only
  split
  · next diagnostic next hrun =>
    have hspends := Receiver.spends_of_receiveAt? hreading progress.nextId
    rw [hrun] at hspends
    exact .inl ⟨diagnostic, next, hspends, rfl⟩
  · next received next hrun =>
    have htaken := Receiver.takes_of_receiveAt? hreading hrun
    have halike := htaken.alike
    generalize hdocument : received.receiver = receiver' at halike
    cases halike with
    | @document _ document' =>
      exact .inr ⟨received, document', next, htaken, hdocument, rfl⟩

/-- A line given to a receiver that is there is refused with an error, which adds nothing, or is
taken. -/
theorem take?_of_at? (grammar : Grammar) (line : Line)
    (hbelow : (Receiver.document progress.document).at? path = some below) (owner : Option String) :
    (∃ progress', progress.take? grammar line path owner = some (progress', .ignore) ∧
      progress'.document = progress.document ∧ progress'.log.hasErrors = true) ∨
    ∃ progress' received,
      progress.take? grammar line path owner = some (progress', received.answer) ∧
      Receiver.Outcome line path (.document progress.document) received ∧
      received.receiver = .document progress'.document ∧
      (received.remarks ≠ [] → progress'.log.hasErrors = true) := by
  rcases take?_cases grammar line hbelow owner with
    ⟨diagnostic, nextId, _, htake⟩ | ⟨received, document, nextId, htaken, hdocument, htake⟩
  · exact .inl ⟨_, htake, rfl, Log.hasErrors_report _ _⟩
  · obtain ⟨hkept, _, _, hremarks⟩ :=
      foldl_remark owner received.remarks { progress with document, nextId }
    exact .inr ⟨_, received, htake, htaken.outcome, by rw [hdocument, hkept], hremarks⟩

end Progress

namespace SourceReading

/-- What a line of a source does to the reading. -/
inductive Move (width : Nat) (file text : String) (index : Nat) (reading reading' : SourceReading) :
    Prop
  /-- Nobody is asked: there is nothing in the line, or it has no valid place. -/
  | idle (hdocument : ∃ comments,
        reading'.progress.document = { reading.progress.document with comments })
      (hindentation : reading'.indentation = reading.indentation)
      (hidle : ∀ depth, Line.scannedDepth? width text = some depth →
        reading.indentation.maxDepth < depth)
      (herror : Line.isContent text = true → reading'.progress.log.hasErrors = true)
  /-- The line is refused, or passed over since one above it was. -/
  | passed {depth : Nat} (hdepth : Line.scannedDepth? width text = some depth)
      (hmost : depth ≤ reading.indentation.maxDepth)
      (hdocument : reading'.progress.document = reading.progress.document)
      (hentries : reading'.indentation.entries =
        reading.indentation.entries.take (depth + 1) ++ [none])
      (hpassed : none ∈ reading.indentation.entries ∨ reading'.progress.log.hasErrors = true)
  /-- The line is taken, but is faulty and adds nothing. -/
  | fruitless {depth : Nat} (hdepth : Line.scannedDepth? width text = some depth)
      (hmost : depth ≤ reading.indentation.maxDepth)
      (hdocument : reading'.progress.document = reading.progress.document)
      (hentries : reading'.indentation.entries = reading.indentation.entries.take (depth + 1))
      (herror : reading'.progress.log.hasErrors = true)
  | grown {line : Line} {depth : Nat} {path : SlotPath} {below : Receiver} {address : Address}
      {trace : Trace} {opened : List (Option SlotPath)}
      (hline : Line.read file index text = .ok line)
      (hdepth : Line.scannedDepth? width text = some depth)
      (hmost : depth ≤ reading.indentation.maxDepth)
      (hreceiver : reading.indentation.receiver? depth = some path)
      (hbelow : (Receiver.document reading.progress.document).at? path = some below)
      (hhosts : below.Hosts address)
      (hgrows : (Receiver.document reading.progress.document).Grows
        (.document reading'.progress.document) (address.within path) trace)
      (htrace : trace.ComesFrom line)
      (hentries : reading'.indentation.entries =
        reading.indentation.entries.take (depth + 1) ++ opened)
      (hopened : opened = [] ∨ ∃ further receiver, address.path? = some further ∧
        opened = [some (path ++ further)] ∧
        (Receiver.document reading'.progress.document).at? (path ++ further) = some receiver ∧
        receiver.takesLines = true)

variable {grammar : Grammar} {width : Nat} {file text : String} {index : Nat}
  {reading : SourceReading}

theorem move_give {line : Line} {depth : Nat} {path : SlotPath}
    (hleads : reading.indentation.Leads (.document reading.progress.document))
    (hline : Line.read file index text = .ok line) (htokens : line.tokens ≠ [])
    (hdepth : Line.scannedDepth? width text = some depth)
    (hmost : depth ≤ reading.indentation.maxDepth)
    (hreceiver : reading.indentation.receiver? depth = some path) :
    Move width file text index reading
      (give ⟨reading.progress, reading.indentation.close depth⟩ grammar line depth path) := by
  obtain ⟨below, hbelow, _⟩ := hleads.at? hreceiver
  have hset := Indentation.entries_set_close hmost
  unfold give
  dsimp only
  rcases Progress.take?_of_at? grammar line hbelow (reading.progress.ownerAt path.head?) with
    ⟨progress', htake, hdocument, herror⟩ |
    ⟨progress', received, htake, houtcome, hdocument, hremarks⟩
  · rw [htake]
    exact .passed hdepth hmost hdocument (hset none) (.inr herror)
  · rw [htake]
    cases houtcome with
    | skipped hempty => exact absurd hempty htokens
    | malformed _ _ hreceiver hreceived =>
      cases hreceiver
      rw [hreceived] at hdocument hremarks ⊢
      exact .fruitless hdepth hmost (Receiver.document.inj hdocument).symm rfl
        (hremarks (List.cons_ne_nil _ _))
    | @grown below' address trace hbelow' hhosts hgrows htrace hanswer =>
      rw [hdocument] at hgrows hanswer
      rcases hanswer with hleaf | ⟨further, opened, haddress, hchild, hopened, htakes⟩
      · dsimp only
        rw [hleaf]
        exact .grown hline hdepth hmost hreceiver hbelow' hhosts hgrows htrace
          (List.append_nil _).symm (.inl rfl)
      · dsimp only
        rw [hchild]
        exact .grown hline hdepth hmost hreceiver hbelow' hhosts hgrows htrace (hset _)
          (.inr ⟨further, opened, haddress, rfl, hopened, htakes⟩)

theorem move_place {line : Line}
    (hleads : reading.indentation.Leads (.document reading.progress.document))
    (hline : Line.read file index text = .ok line) (htokens : line.tokens ≠ [])
    (hcontent : Line.isContent text = true) :
    Move width file text index reading (reading.place grammar width line) := by
  obtain ⟨tokens, hscan, hof⟩ := Line.exists_tokens_of_read hline
  have htext : line.text = text := hof ▸ (Line.ofTokens_place file index text tokens).1
  have hscans : Line.scans text = true := by rw [Line.scans, hscan]; rfl
  have hdepths : Line.scannedDepth? width text = Line.marginDepth? width text := by
    rw [Line.scannedDepth?, if_pos hscans, Line.contentDepth?, if_pos hcontent]
  unfold place
  split
  · next hdepth =>
    have hnone := Line.marginDepth?_eq_none_of_depth hdepth
    rw [htext, ← hdepths] at hnone
    exact .idle ⟨_, rfl⟩ rfl (by simp [hnone]) fun _ => Log.hasErrors_report _ _
  · next depth hdepth =>
    have hsome := Line.marginDepth?_of_depth hdepth
    rw [htext, ← hdepths] at hsome
    dsimp only
    split
    · next hdeep =>
      refine .idle ⟨_, rfl⟩ rfl (fun depth' hdepth' => ?_) fun _ => Log.hasErrors_report _ _
      rw [hsome] at hdepth'
      cases hdepth'
      exact hdeep
    · next hmost =>
      unfold enter Indentation.enter
      split
      · next path indentation hentered =>
        obtain ⟨hreceiver, rfl⟩ := Prod.mk.inj hentered
        exact move_give hleads hline htokens hsome (Nat.le_of_not_lt hmost) hreceiver
      · next indentation hentered =>
        obtain ⟨hreceiver, rfl⟩ := Prod.mk.inj hentered
        have hle := Nat.le_of_not_lt hmost
        refine .passed hsome hle rfl (Indentation.entries_set_close hle none) (.inl ?_)
        have hlt : depth < reading.indentation.entries.length := by
          have := reading.indentation.length_entries_pos
          unfold Indentation.maxDepth at hmost
          omega
        unfold Indentation.receiver? at hreceiver
        rw [List.getElem?_eq_getElem hlt, Option.join_some] at hreceiver
        exact hreceiver ▸ List.getElem_mem hlt

/-- A line of a source, read where all open depths lead to receivers, makes one of the moves. -/
theorem move_readLine (hleads : reading.indentation.Leads (.document reading.progress.document)) :
    Move width file text index reading (reading.readLine grammar width file text index) := by
  unfold readLine
  split
  · next hblank =>
    have hcontent : Line.isContent text = false := by simp [Line.isContent, hblank]
    refine .idle ⟨_, rfl⟩ rfl ?_ (by simp [hcontent])
    simp [Line.scannedDepth?, Line.contentDepth?, hcontent]
  · next hblank =>
    split
    · next hread =>
      have hscans : Line.scans text = false := by
        unfold Line.read at hread
        split at hread
        · cases hread
        · next hscan =>
          rw [Line.scans, hscan]
          rfl
      exact .idle ⟨_, rfl⟩ rfl (by simp [Line.scannedDepth?, hscans]) fun _ =>
        Log.hasErrors_report _ _
    · next line hline =>
      obtain ⟨tokens, hscan, rfl⟩ := Line.exists_tokens_of_read hline
      rw [Line.isCommentOnly_ofTokens]
      have hcontent : Line.isContent text = !Line.isOnlyComment tokens := by
        simp [Line.isContent, hscan, hblank]
      split
      · next hcomment =>
        rw [hcomment] at hcontent
        refine .idle ⟨_, rfl⟩ rfl ?_ (by simp [hcontent])
        simp [Line.scannedDepth?, Line.contentDepth?, hcontent]
      · next hcomment =>
        have hnot := eq_false_of_ne_true hcomment
        have hne := Token.ne_nil_of_scanFrom hscan (eq_false_of_ne_true hblank)
        exact move_place hleads hline (Line.tokens_ofTokens_ne_nil hne hnot)
          (by rw [hcontent, hnot]; rfl)

theorem Move.keeps {reading' : SourceReading} (h : Move width file text index reading reading') :
    (Receiver.document reading.progress.document).Keeps (.document reading'.progress.document) := by
  cases h with
  | idle hdocument =>
    obtain ⟨comments, hdocument⟩ := hdocument
    rw [hdocument]
    exact Receiver.keeps_withComments
  | passed _ _ hdocument | fruitless _ _ hdocument =>
    rw [hdocument]
    exact Receiver.Keeps.refl _
  | grown _ _ _ _ _ _ hgrows => exact fun _ _ hbelow => hgrows.at? hbelow

theorem Move.traceAt? {reading' : SourceReading} {address : Address} {trace : Trace}
    (h : Move width file text index reading reading')
    (htrace : (Receiver.document reading.progress.document).traceAt? address = some trace) :
    (Receiver.document reading'.progress.document).traceAt? address = some trace := by
  cases h with
  | idle hdocument =>
    obtain ⟨comments, hdocument⟩ := hdocument
    rw [hdocument, Receiver.traceAt?_withComments, htrace]
  | passed _ _ hdocument | fruitless _ _ hdocument => rw [hdocument, htrace]
  | grown _ _ _ _ _ _ hgrows =>
    rw [hgrows.traceAt?_eq, if_neg, htrace]
    rintro rfl
    rw [hgrows.traceAt?_address] at htrace
    cases htrace

theorem Move.leads {reading' : SourceReading} (h : Move width file text index reading reading')
    (hleads : reading.indentation.Leads (.document reading.progress.document)) :
    reading'.indentation.Leads (.document reading'.progress.document) := by
  have hkeeps := h.keeps
  cases h with
  | idle _ hindentation =>
    refine hleads.next reading.indentation.maxDepth hkeeps .nothing ?_
    have := reading.indentation.length_entries_pos
    rw [hindentation, List.append_nil, List.take_of_length_le]
    unfold Indentation.maxDepth
    omega
  | @passed depth _ _ _ hentries => exact hleads.next depth hkeeps .passed hentries
  | @fruitless depth _ _ _ hentries =>
    exact hleads.next depth hkeeps .nothing (hentries.trans (List.append_nil _).symm)
  | grown _ _ _ hreceiver _ _ _ _ hentries hopened =>
    refine hleads.next _ hkeeps ?_ hentries
    rcases hopened with rfl | ⟨further, receiver, haddress, rfl, hbelow, htakes⟩
    · exact .nothing
    · refine .inside hreceiver ?_ hbelow htakes
      obtain ⟨slot, _, rfl⟩ := Option.map_eq_some_iff.1 haddress
      simp

/-- The reading after lines of a source. -/
def readLines (grammar : Grammar) (width : Nat) (file : String) (progress : Progress)
    (lines : List String) : SourceReading :=
  lines.zipIdx.foldl
    (fun reading (text, index) => reading.readLine grammar width file text index)
    ⟨progress, Indentation.start⟩

variable {progress : Progress}

theorem progress_readLines (lines : List String) :
    (readLines grammar width file progress lines).progress =
      progress.readSource grammar width file lines := rfl

theorem readLines_append_singleton (lines : List String) (text : String) :
    readLines grammar width file progress (lines ++ [text]) =
      (readLines grammar width file progress lines).readLine grammar width file text
        lines.length := by
  simp [readLines, List.zipIdx_append]

theorem leads_readLines (lines : List String) :
    (readLines grammar width file progress lines).indentation.Leads
      (.document (readLines grammar width file progress lines).progress.document) := by
  induction lines using List.reverseRecOn with
  | nil => exact Indentation.leads_start _
  | append_singleton lines text ih =>
    rw [readLines_append_singleton]
    exact (move_readLine ih).leads ih

/-- Whatever lines have been read, all open depths lead to receivers of lines. So the next line that
is let in finds a receiver, and an expression among them has a body or is a switch. -/
theorem receives_entered (grammar : Grammar) (width : Nat) (file : String) (progress : Progress)
    (lines : List String) :
    let reading := readLines grammar width file progress lines
    let root := Receiver.document reading.progress.document
    reading.indentation.Leads root ∧
      ∀ {depth path opened}, reading.indentation.enter depth = (some path, opened) →
        opened.Leads root ∧
        (∀ line owner, (reading.progress.take? grammar line path owner).isSome = true) ∧
        ∀ {item}, root.at? path = some (.expression item) →
          item.body? ≠ none ∨ ∃ mark subject cases, item = .switch mark subject cases := by
  intro reading root
  have hleads : reading.indentation.Leads root := leads_readLines lines
  refine ⟨hleads, fun {depth path opened} hentered => ?_⟩
  obtain ⟨hreceiver, rfl⟩ := Prod.mk.inj hentered
  obtain ⟨below, hbelow, htakes⟩ := hleads.at? hreceiver
  refine ⟨?_, fun line owner => ?_, fun {item} hitem => ?_⟩
  · exact hleads.next depth (Receiver.Keeps.refl root) .nothing (List.append_nil _).symm
  · rcases Progress.take?_of_at? grammar line hbelow owner with ⟨_, htake, _⟩ | ⟨_, _, htake, _⟩
    · rw [htake, Option.isSome_some]
    · rw [htake, Option.isSome_some]
  · rw [hbelow] at hitem
    cases hitem
    cases item <;> simp_all [Receiver.takesLines, Expr.isBlock, Expr.body?]

theorem receives_entered_openBranch :
    let reading := readLines .standard 2 "test.lexy" {} ["function A", "  code", "    if true"]
    ∃ opened, reading.indentation.enter 3 = (some [0, 2, 0], opened) ∧
      opened.Leads (.document reading.progress.document) ∧
      ∀ line owner, (reading.progress.take? .standard line [0, 2, 0] owner).isSome = true := by
  intro reading
  have hreceiver : reading.indentation.receiver? 3 = some [0, 2, 0] := by decide +kernel
  have hentered : reading.indentation.enter 3 = (some [0, 2, 0], reading.indentation.close 3) := by
    rw [Indentation.enter, hreceiver]
  obtain ⟨hleads, htakes, _⟩ := (receives_entered .standard 2 "test.lexy" {} _).2 hentered
  exact ⟨_, hentered, hleads, htakes⟩

end SourceReading

end DecisionLang
