import DecisionLang.Proofs.Checking.Rerun.Declaration
import DecisionLang.Proofs.Reading.Coherence
import DecisionLang.Proofs.Reading.Refusal
import DecisionLang.Proofs.Reading.Transcript

/-!
# Whom faults are attributed to

While a source is read, the current declaration is the last one that was begun, up to the next line
at the outermost depth. Every line in between is attributed to it, whoever receives the line and
whether it gets that far. While declarations are checked, the current one is the one that is being
checked, with everything written out in it. Both times the owner is set for as long as that takes,
so no work on a document changes the owner of its log. Main statement: `faults_attributed`.
-/

namespace DecisionLang

/-- A later state of a log. All entries since then are attributed to one declaration, or to none. -/
structure Log.GainsFor (log : Log) (name? : Option String) (later : Log) : Prop where
  entries : ∃ new, later.entries = log.entries ++ new ∧ ∀ entry ∈ new, entry.owner = name?
  owner : later.owner = log.owner

namespace Log.GainsFor

variable {log later last : Log} {name? : Option String}

theorem refl (log : Log) : log.GainsFor name? log := ⟨⟨[], by simp, nofun⟩, rfl⟩

theorem trans (h : log.GainsFor name? later) (h' : later.GainsFor name? last) :
    log.GainsFor name? last := by
  obtain ⟨new, hentries, hnew⟩ := h.entries
  obtain ⟨new', hentries', hnew'⟩ := h'.entries
  refine ⟨⟨new ++ new', ?_, List.forall_mem_append.2 ⟨hnew, hnew'⟩⟩, h'.owner.trans h.owner⟩
  rw [hentries', hentries, List.append_assoc]

theorem reportFor (log : Log) (diagnostic : Diagnostic) :
    log.GainsFor name? (log.reportFor name? diagnostic) :=
  ⟨⟨_, Log.entries_reportFor log name? diagnostic, by simp⟩, rfl⟩

end Log.GainsFor

/-! ### Remarks about lines below the outermost depth -/

namespace CodeLine

variable {lines : List Expr} {item : Expr} {received : Received (List Expr)}

theorem remarks_of_attach {keyword : Keyword} (h : attach lines keyword item = .ok received) :
    received.remarks = [] := by
  unfold attach at h
  split at h
  · split at h
    · cases h
    · cases h
      rfl
  · cases h

theorem remarks_of_add (h : add lines item = .ok received) : received.remarks = [] := by
  unfold add at h
  split at h
  · exact remarks_of_attach h
  · exact remarks_of_attach h
  · cases h
  · split at h <;> cases h <;> rfl

theorem remarks_of_addCase (h : addCase lines item = .ok received) : received.remarks = [] := by
  unfold addCase at h
  split at h <;> cases h
  rfl

end CodeLine

theorem TableLine.owner_of_mem_repeatedColumns {columns : List Column} {seen : List String}
    {remark : Remark} (h : remark ∈ repeatedColumns seen columns) : remark.owner = none := by
  induction columns generalizing seen with
  | nil => cases h
  | cons column columns ih =>
    unfold repeatedColumns at h
    split at h
    · rcases List.mem_cons.1 h with rfl | h
      · rfl
      · exact ih h
    · exact ih h

namespace Receiver

variable {grammar : Grammar} {line : Line} {receiver : Receiver} {next after : Nat}
  {received : Received Receiver} {path : SlotPath} {remark : Remark}

/-- Only the document attributes remarks to others than the owner of the line. -/
theorem Accepts.owner_of_mem_remarks (h : receiver.Accepts grammar line next received after)
    (hreceiver : ∀ document, receiver ≠ .document document) (hremark : remark ∈ received.remarks) :
    remark.owner = none := by
  cases h with
  | malformedInclusion | inclusion | declaration => exact absurd rfl (hreceiver _)
  | tableHeader => exact TableLine.owner_of_mem_repeatedColumns hremark
  | code _ hadd | branch _ _ hadd =>
    have hremarks := CodeLine.remarks_of_add hadd
    simp [Received.map, Received.within, hremarks] at hremark
  | case _ hadd =>
    have hremarks := CodeLine.remarks_of_addCase hadd
    simp [Received.map, hremarks] at hremark
  | _ => cases hremark

theorem Takes.owner_of_mem_remarks (h : Takes grammar line path receiver next received after)
    (hpath : path ≠ [] ∨ ∀ document, receiver ≠ .document document)
    (hremark : remark ∈ received.remarks) : remark.owner = none := by
  induction h with
  | here haccepted => exact haccepted.owner_of_mem_remarks (hpath.resolve_left (by simp)) hremark
  | @inside receiver slot path inner next received after hslot htaken ih =>
    refine ih (.inr fun document hinner => ?_) hremark
    exact absurd hinner (replaces_of_slot? hslot (.refl inner)).ne_document

end Receiver

namespace Progress

variable {grammar : Grammar} {line : Line} {progress progress' : Progress} {path : SlotPath}
  {below : Receiver} {owner : Option String} {answer : Answer}

theorem gainsFor_foldl_remark {remarks : List Remark}
    (h : ∀ remark ∈ remarks, remark.owner = none) (progress : Progress) :
    progress.log.GainsFor owner (remarks.foldl (remark owner) progress).log := by
  induction remarks generalizing progress with
  | nil => exact .refl _
  | cons first remarks ih =>
    obtain ⟨hfirst, hremarks⟩ := List.forall_mem_cons.1 h
    have hremark : progress.remark owner first = progress.report owner first.diagnostic := by
      rw [remark, hfirst, Option.none_or]
    rw [List.foldl_cons, hremark]
    exact .trans (.reportFor progress.log first.diagnostic) (ih hremarks (progress.report owner _))

/-- A line below the outermost depth is attributed to whom it is given on behalf of. -/
theorem gainsFor_of_take? (hpath : path ≠ [])
    (hbelow : (Receiver.document progress.document).at? path = some below)
    (h : progress.take? grammar line path owner = some (progress', answer)) :
    progress.log.GainsFor owner progress'.log := by
  rcases take?_cases grammar line hbelow owner with
    ⟨diagnostic, nextId, _, htake⟩ | ⟨received, document, nextId, htaken, _, htake⟩
  · rw [htake] at h
    cases h
    exact .reportFor _ _
  · rw [htake] at h
    cases h
    exact gainsFor_foldl_remark (fun _ hremark => htaken.owner_of_mem_remarks (.inl hpath) hremark)
      { progress with document, nextId }

theorem answer_of_begun {slot : Nat}
    (h : progress.take? grammar line [] owner = some (progress', answer))
    (hbefore : (Receiver.document progress.document).traceAt? ⟨[], .declaration slot⟩ = none)
    (hafter : (Receiver.document progress'.document).traceAt? ⟨[], .declaration slot⟩ ≠ none) :
    answer = .child [slot] := by
  rcases take?_cases grammar line (Receiver.at?_nil _) owner with
    ⟨diagnostic, nextId, _, htake⟩ | ⟨received, document, nextId, htaken, hdocument, htake⟩
  · rw [htake] at h
    cases h
    exact absurd hbefore hafter
  · rw [htake] at h
    cases h
    obtain ⟨hkept, _⟩ := foldl_remark owner received.remarks { progress with document, nextId }
    rw [hkept] at hafter
    cases htaken with
    | here haccepted =>
      cases haccepted with
      | skip | malformedInclusion | inclusion =>
        cases hdocument
        exact absurd hbefore hafter
      | declaration =>
        cases hdocument
        simp only [Receiver.traceAt?_nil, Receiver.trace?, Option.map_eq_none_iff, ne_eq,
          List.getElem?_eq_none_iff, Nat.not_le] at hbefore hafter
        simp only [DeclarationLine.addDeclaration, Received.map, List.length_append,
          List.length_singleton] at hafter ⊢
        rw [Nat.le_antisymm (Nat.le_of_lt_succ hafter) hbefore]

/-! ### Names stay -/

theorem Step.names (h : Step grammar progress progress') :
    progress.document.names <+: progress'.document.names := by
  cases h with
  | idle hdeclarations =>
    unfold Document.names
    rw [hdeclarations]
  | take _ htaken hdocument =>
    rcases htaken.names hdocument with hsame | ⟨name, hadded, _⟩
    · rw [hsame]
    · rw [hadded]
      exact List.prefix_append _ _

theorem Reads.names (h : Reads grammar progress progress') :
    progress.document.names <+: progress'.document.names := by
  induction h with
  | refl => exact List.prefix_refl _
  | tail _ hstep ih => exact List.IsPrefix.trans ih hstep.names

end Progress

/-! ### The declaration that is open -/

namespace Indentation

variable {indentation : Indentation} {root : Receiver} {depth : Nat} {path : SlotPath}

theorem Leads.receiver?_zero (h : indentation.Leads root) : indentation.receiver? 0 = some [] := by
  rw [receiver?_eq_some, ← List.head?_eq_getElem?]
  exact h.outermost

/-- The receivers of all deeper lines are inside the one that was opened at the outermost depth. -/
theorem Leads.exists_cons (h : indentation.Leads root)
    (hpath : indentation.receiver? (depth + 1) = some path) :
    ∃ slot further rest, path = slot :: further ∧
      indentation.receiver? 1 = some (slot :: rest) := by
  have hentry := receiver?_eq_some.1 hpath
  obtain ⟨hlength, hdeep⟩ := List.getElem?_eq_some_iff.1 hentry
  have hreaches {i j : Nat} (hij : i < j) {shallower deeper : Option SlotPath}
      (hi : indentation.entries[i]? = some shallower)
      (hj : indentation.entries[j]? = some deeper) : Reaches shallower deeper := by
    obtain ⟨hlt, rfl⟩ := List.getElem?_eq_some_iff.1 hi
    obtain ⟨hlt', rfl⟩ := List.getElem?_eq_some_iff.1 hj
    exact List.pairwise_iff_getElem.1 h.chain i j hlt hlt' hij
  have hroot := receiver?_eq_some.1 h.receiver?_zero
  obtain ⟨_, further, hsome, hne, rfl⟩ := hreaches (Nat.succ_pos depth) hroot hentry path rfl
  cases hsome
  cases depth with
  | zero =>
    obtain ⟨slot, further, rfl⟩ := List.exists_cons_of_ne_nil hne
    exact ⟨slot, further, further, rfl, hpath⟩
  | succ depth =>
    have hfirst := List.getElem?_eq_getElem (show 1 < indentation.entries.length by omega)
    obtain ⟨first, inner, hinside, _, hwhole⟩ := hreaches (by omega) hfirst hentry _ rfl
    rw [hinside] at hfirst
    obtain ⟨_, rest, hsome, hne, rfl⟩ := hreaches Nat.one_pos hroot hfirst first rfl
    cases hsome
    obtain ⟨slot, rest, rfl⟩ := List.exists_cons_of_ne_nil hne
    exact ⟨slot, rest ++ inner, rest, hwhole, receiver?_eq_some.2 hfirst⟩

theorem Leads.openSlot?_eq (h : indentation.Leads root) :
    indentation.openSlot? = (indentation.receiver? 1).bind List.head? := by
  have hlength := indentation.length_entries_pos
  have hall : indentation.entries.take (indentation.maxDepth + 1) = indentation.entries :=
    List.take_of_length_le (by unfold maxDepth; omega)
  have hmem {path : SlotPath} :
      path ∈ (indentation.entries.filterMap fun path => path).reverse ↔
        ∃ depth, indentation.receiver? depth = some path := by
    simp only [List.mem_reverse, List.mem_filterMap, receiver?_eq_some, ← List.mem_iff_getElem?]
    exact ⟨fun ⟨_, hentry, hpath⟩ => hpath ▸ hentry, fun hentry => ⟨_, hentry, rfl⟩⟩
  rw [openSlot?, rootSlot?, hall]
  cases hfound : (indentation.entries.filterMap fun path => path).reverse.findSome?
      List.head? with
  | some slot =>
    obtain ⟨path, hpath, hhead⟩ := List.exists_of_findSome?_eq_some hfound
    obtain ⟨depth, hdepth⟩ := hmem.1 hpath
    cases depth with
    | zero =>
      rw [h.receiver?_zero] at hdepth
      cases hdepth
      cases hhead
    | succ depth =>
      obtain ⟨_, _, _, rfl, hopen⟩ := h.exists_cons hdepth
      rw [hopen]
      exact hhead.symm
  | none =>
    cases hopen : indentation.receiver? 1 with
    | none => rfl
    | some path => exact (List.findSome?_eq_none_iff.1 hfound path (hmem.2 ⟨1, hopen⟩)).symm

end Indentation

namespace SourceReading

variable {grammar : Grammar} {width : Nat} {file text : String} {index : Nat}
  {reading : SourceReading}

/-- A line is attributed to the declaration that is open, unless it is at the outermost depth. -/
theorem gainsFor_readLine
    (hleads : reading.indentation.Leads (.document reading.progress.document))
    (hdepth : Line.scannedDepth? width text ≠ some 0) :
    reading.progress.log.GainsFor reading.openOwner
      (reading.readLine grammar width file text index).progress.log := by
  unfold readLine
  split
  · exact .refl _
  · next hblank =>
    split
    · exact .reportFor _ _
    · next line hline =>
      split
      · exact .refl _
      · next hcomment =>
        unfold place
        split
        · exact .reportFor _ _
        · next depth hplaced =>
          have hscanned := Line.scannedDepth?_of_depth (eq_false_of_ne_true hblank) hline
            (eq_false_of_ne_true hcomment) hplaced
          dsimp only
          split
          · exact .reportFor _ _
          · cases depth with
            | zero => exact absurd hscanned hdepth
            | succ depth =>
              cases hreceiver : reading.indentation.receiver? (depth + 1) with
              | none =>
                rw [enter_of_none hreceiver]
                exact .refl _
              | some path =>
                obtain ⟨below, hbelow, _⟩ := hleads.at? hreceiver
                obtain ⟨slot, further, rest, rfl, hopen⟩ := hleads.exists_cons hreceiver
                -- Below the outermost depth every path starts at the declaration that is open.
                have howner : reading.openOwner =
                    reading.progress.ownerAt (slot :: further).head? := by
                  rw [openOwner, hleads.openSlot?_eq, hopen]
                  rfl
                obtain ⟨progress, answer, htake⟩ := Progress.exists_take? grammar line
                  reading.openOwner hbelow
                rw [enter_of_some hreceiver, give, ← howner, htake]
                exact Progress.gainsFor_of_take? (List.cons_ne_nil _ _) hbelow htake

end SourceReading

namespace Source

variable {source : Source} {index root slot : Nat} {name : String}

/-- A line comes after the one that begins the root declaration in a slot, and no line at the
outermost depth has come in between. -/
structure InBlockOf (source : Source) (index slot : Nat) (name : String) : Prop where
  begun : ∃ root < index, source.Adds root ⟨[], .declaration slot⟩ ∧
    ∀ between, root < between → between < index → source.scannedDepth? between ≠ some 0
  name : (source.start.readSource source.grammar source.width source.file
    source.lines).document.names[slot]? = some name

theorem names_prefix_result (source : Source) (count : Nat) :
    (source.readingAfter count).progress.document.names <+:
      (source.start.readSource source.grammar source.width source.file
        source.lines).document.names := by
  rw [← readingAfter_length]
  rcases Nat.le_total count source.lines.length with hle | hle
  · exact (reads_readingAfter hle).names
  · rw [readingAfter, readingAfter, List.take_of_length_le hle,
      List.take_of_length_le (Nat.le_refl _)]

theorem Adds.outermost (h : source.Adds index ⟨[], .declaration slot⟩) :
    source.scannedDepth? index = some 0 := by
  obtain @⟨_, depth, path, _, relative, _, _, hdepth, hreceiver, _, _, haddress, _⟩ := h.stands
  cases depth with
  | zero => exact hdepth
  | succ depth =>
    obtain ⟨_, _, _, rfl, _⟩ := (leads source index).exists_cons hreceiver
    cases haddress

theorem Adds.receiver?_one (h : source.Adds index ⟨[], .declaration slot⟩) :
    (source.readingAfter (index + 1)).indentation.receiver? 1 = some [slot] := by
  have hroot := (leads source index).receiver?_zero
  obtain ⟨line, answer, hasks⟩ := exists_asks h.outermost (Nat.zero_le _) hroot
  obtain rfl := Progress.answer_of_begun hasks.htake h.before h.after
  rw [Indentation.receiver?_eq_some, hasks.hindentation, Indentation.after,
    Indentation.entries_set_close hasks.hmost,
    List.getElem?_append_right (Nat.le_of_eq (Indentation.length_take_entries hasks.hmost)),
    Indentation.length_take_entries hasks.hmost]
  rfl

theorem receiver?_one_succ (h : source.scannedDepth? index ≠ some 0) {path : SlotPath}
    (hopen : (source.readingAfter index).indentation.receiver? 1 = some path) :
    (source.readingAfter (index + 1)).indentation.receiver? 1 = some path := by
  by_cases hlength : index < source.lines.length
  · have hscanned := scannedDepth?_getElem hlength
    rw [Indentation.receiver?_eq_some] at hopen ⊢
    have hkept {depth : Nat} {opened : List (Option SlotPath)}
        (hdepth : Line.scannedDepth? source.width source.lines[index] = some depth)
        (hmost : depth ≤ (source.readingAfter index).indentation.maxDepth)
        (hentries : (source.readingAfter (index + 1)).indentation.entries =
          (source.readingAfter index).indentation.entries.take (depth + 1) ++ opened) :
        (source.readingAfter (index + 1)).indentation.entries[1]? = some (some path) := by
      have hpos : 0 < depth := Nat.pos_of_ne_zero fun hzero => h (by rw [hscanned, hdepth, hzero])
      rw [hentries, List.getElem?_append_left, List.getElem?_take_of_lt (by omega), hopen]
      rw [Indentation.length_take_entries hmost]
      omega
    cases move hlength with
    | idle _ hindentation => rwa [hindentation]
    | passed hdepth hmost _ hentries => exact hkept hdepth hmost hentries
    | fruitless hdepth hmost _ hentries =>
      exact hkept hdepth hmost (hentries.trans (List.append_nil _).symm)
    | grown _ hdepth hmost _ _ _ _ _ hentries => exact hkept hdepth hmost hentries
  · rwa [readingAfter_succ_of_length_le (Nat.le_of_not_lt hlength)]

theorem InBlockOf.receiver?_one (h : source.InBlockOf index slot name) :
    (source.readingAfter index).indentation.receiver? 1 = some [slot] := by
  obtain ⟨root, hearlier, hadds, hsince⟩ := h.begun
  induction index, hearlier using Nat.le_induction with
  | base => exact hadds.receiver?_one
  | succ index hearlier ih =>
    have hbetween (between : Nat) (hroot : root < between) (hlt : between < index) :
        source.scannedDepth? between ≠ some 0 := hsince between hroot (Nat.lt_succ_of_lt hlt)
    refine receiver?_one_succ (hsince index hearlier (Nat.lt_succ_self index)) ?_
    exact ih ⟨⟨root, hearlier, hadds, hbetween⟩, h.name⟩ hbetween

/-- The declaration that is open is the one whose block the next line is in. -/
theorem exists_inBlockOf {path : SlotPath}
    (hopen : (source.readingAfter index).indentation.receiver? 1 = some path) :
    ∃ slot name, path = [slot] ∧ source.InBlockOf index slot name ∧
      (source.readingAfter index).progress.document.names[slot]? = some name := by
  obtain ⟨root, hopened⟩ := exists_openedBy hopen
  obtain ⟨⟨holder, site⟩, hadds, hpath⟩ := hopened.hadds
  obtain rfl : holder = [] := hadds.holder_of_depth_zero (depth?_of_scannedDepth? hopened.hdepth)
  obtain ⟨slot, hslot, rfl⟩ := Option.map_eq_some_iff.1 hpath
  have hafter := hadds.after
  rw [documentAfter, Receiver.traceAt?_nil] at hafter
  obtain rfl : site = .declaration slot := by
    cases site <;> simp_all [Receiver.trace?, Site.slot?]
  obtain ⟨trace, htrace⟩ := Option.ne_none_iff_exists'.1 hadds.after
  have hdeclared := traceAt?_of_le hopened.hearlier htrace
  obtain ⟨declaration, hdeclaration, _⟩ := Option.map_eq_some_iff.1 hdeclared
  have hname : (source.readingAfter index).progress.document.names[slot]? =
      some declaration.name := by
    rw [Document.names, List.getElem?_map, hdeclaration, Option.map_some]
  refine ⟨slot, declaration.name, rfl, ⟨⟨root, hopened.hearlier, hadds, ?_⟩, ?_⟩, hname⟩
  · intro between hroot hbetween hdepth
    exact Nat.lt_irrefl 0 (hopened.hsince between hroot hbetween 0 hdepth)
  · obtain ⟨hlt, hsame⟩ := List.getElem?_eq_some_iff.1 hname
    rw [List.prefix_iff_getElem?.1 (source.names_prefix_result index) slot hlt, hsame]

theorem openOwner_eq_some_iff :
    (source.readingAfter index).openOwner = some name ↔
      ∃ slot, source.InBlockOf index slot name := by
  have hleads := leads source index
  have hname (slot : Nat) :
      (source.readingAfter index).progress.ownerAt (some slot) =
        (source.readingAfter index).progress.document.names[slot]? := by
    rw [Progress.ownerAt, Option.bind_some, Document.names, List.getElem?_map]
  rw [SourceReading.openOwner, hleads.openSlot?_eq]
  constructor
  · intro howner
    cases hopen : (source.readingAfter index).indentation.receiver? 1 with
    | none =>
      rw [hopen] at howner
      cases howner
    | some path =>
      obtain ⟨slot, name', rfl, hblock, hname'⟩ := exists_inBlockOf hopen
      rw [hopen, Option.bind_some, List.head?_cons, hname, hname'] at howner
      cases howner
      exact ⟨slot, hblock⟩
  · rintro ⟨slot, hblock⟩
    obtain ⟨_, name', hslot, hblock', hname'⟩ := exists_inBlockOf hblock.receiver?_one
    cases hslot
    cases hblock.name.symm.trans hblock'.name
    rw [hblock.receiver?_one, Option.bind_some, List.head?_cons, hname, hname']

end Source

/-! ### Checking -/

namespace Check

theorem gainsFor_ownedBy_root (env : TypeEnv) (item : Declaration) (state : CheckState) :
    state.log.GainsFor (some item.name)
      ((ownedBy item.name (root env item)).run state).2.log := by
  have hfits : (Rerun.behind env {}).Fits (.ofDeclaration item) :=
    Rerun.fits_behind env fun id _ => Findings.lacks_empty id
  have hroot : (Rerun.behind env {}).Repeats (fun _ => True) (root env item) (root env item)
      fun _ => True := Rerun.repeats_root hfits
  have hgains := hroot.gains { state with log.owner := some item.name }
    (Rerun.among_behind env {} _)
  exact ⟨hgains.entries, rfl⟩

theorem owner_roots (env : TypeEnv) (items : List Declaration) (state : CheckState) :
    ((items.forM fun item => ownedBy item.name (root env item)).run state).2.log.owner =
      state.log.owner := by
  induction items generalizing state with
  | nil => rfl
  | cons item items ih => exact (ih _).trans (gainsFor_ownedBy_root env item state).owner

end Check

namespace TypeEnv

theorem owner_check (env : TypeEnv) (order : List Nat) (log : Log) :
    (env.check order log).2.owner = log.owner :=
  Check.owner_roots env _ { log }

theorem gainsFor_check (env : TypeEnv) (order : List Nat) (index : Nat) (log : Log) :
    (env.check order log).2.GainsFor env.document.names[index]?
      (env.check (order ++ [index]) log).2 := by
  unfold check Check.roots
  rw [List.filterMap_append, List.filterMap_cons, List.filterMap_nil, Document.names,
    List.getElem?_map]
  cases env.document.declarations[index]? with
  | none =>
    rw [List.append_nil]
    exact .refl _
  | some item =>
    rw [List.forM_eq_forM, List.forM_append]
    exact Check.gainsFor_ownedBy_root env item _

end TypeEnv

/-- A line that is not at the outermost depth is attributed to the root declaration whose block it
is in, and every receiver of such lines is in a block. What is logged while a root declaration is
checked is attributed to it, whatever was checked before. Neither reading, with or without the files
that are included, nor checking leaves another owner than the one it found. -/
theorem faults_attributed (source : Source) (env : TypeEnv) (log : Log) :
    (∀ index, source.scannedDepth? index ≠ some 0 → ∃ name?,
      (source.readingAfter index).progress.log.GainsFor name?
        (source.readingAfter (index + 1)).progress.log ∧
      ∀ name, name? = some name ↔ ∃ slot, source.InBlockOf index slot name) ∧
    (∀ index depth path, source.scannedDepth? index = some (depth + 1) →
      (source.readingAfter index).indentation.receiver? (depth + 1) = some path →
      ∃ slot further name, path = slot :: further ∧ source.InBlockOf index slot name) ∧
    (source.start.readSource source.grammar source.width source.file source.lines).log.owner =
      source.start.log.owner ∧
    (∀ options files, (Progress.readIncluding source.grammar options files source.file
      source.lines).log.owner = none) ∧
    (∀ order index, (env.check order log).2.GainsFor env.document.names[index]?
      (env.check (order ++ [index]) log).2) ∧
    ∀ order, (env.check order log).2.owner = log.owner := by
  refine ⟨fun index hdepth => ?_, fun index depth path _ hreceiver => ?_,
    (Progress.reads_readSource _ _ _ _).continues.owner,
    fun options files => (Progress.reads_readIncluding _ options files _ _).continues.owner,
    fun order index => env.gainsFor_check order index log, fun order => env.owner_check order log⟩
  · refine ⟨(source.readingAfter index).openOwner, ?_, fun name => source.openOwner_eq_some_iff⟩
    by_cases hlength : index < source.lines.length
    · rw [Source.scannedDepth?_getElem hlength] at hdepth
      rw [Source.readingAfter_succ hlength]
      exact SourceReading.gainsFor_readLine (source.leads index) hdepth
    · rw [Source.readingAfter_succ_of_length_le (Nat.le_of_not_lt hlength)]
      exact .refl _
  · obtain ⟨slot, further, rest, rfl, hopen⟩ := (source.leads index).exists_cons hreceiver
    obtain ⟨_, name, hslot, hblock, _⟩ := Source.exists_inBlockOf hopen
    cases hslot
    exact ⟨slot, further, name, rfl, hblock⟩

/-- A scenario with a function, an enumeration and a table written out in it, each with a mistake
that is only found by checking. One line of the function cannot be read. -/
def writtenOut : Source where
  grammar := .standard
  width := 2
  file := "test.lexy"
  start := {}
  lines := ["enum Size", "  Small", "scenario Test", "  function", "    parameters",
    "      number A = true", "    code", "      number +", "  enum", "  table"]

theorem faults_attributed_writtenOut :
    let document := (writtenOut.start.readSource .standard 2 "test.lexy" writtenOut.lines).document
    let env : TypeEnv := ⟨document, .standard⟩
    writtenOut.scannedDepth? 7 = some 3 ∧
      (writtenOut.readingAfter 7).indentation.receiver? 3 = some [1, 0, 2] ∧
      (writtenOut.readingAfter 7).progress.log.GainsFor (some "Test")
        (writtenOut.readingAfter 8).progress.log ∧
      (writtenOut.readingAfter 7).progress.log.entries.length = 0 ∧
      (writtenOut.readingAfter 8).progress.log.entries.length = 1 ∧
      (env.check [0] {}).2.GainsFor (some "Test") (env.check [0, 1] {}).2 ∧
      (env.check [0] {}).2.entries.length = 0 ∧ (env.check [0, 1] {}).2.entries.length = 3 := by
  intro document env
  have hdepth : writtenOut.scannedDepth? 7 = some 3 := by decide +kernel
  have hreceiver : (writtenOut.readingAfter 7).indentation.receiver? 3 = some [1, 0, 2] := by
    decide +kernel
  have hname : env.document.names[1]? = some "Test" := by decide +kernel
  obtain ⟨hlines, hreceivers, _, _, hchecks, _⟩ := faults_attributed writtenOut env {}
  obtain ⟨name?, hgains, hblocks⟩ := hlines 7 (by rw [hdepth]; decide)
  obtain ⟨slot, further, name, hpath, hblock⟩ := hreceivers 7 2 [1, 0, 2] hdepth hreceiver
  cases hpath
  cases hblock.name.symm.trans hname
  cases (hblocks "Test").2 ⟨1, hblock⟩
  have hchecked := hchecks [0] 1
  rw [hname] at hchecked
  exact ⟨hdepth, hreceiver, hgains, by decide +kernel, by decide +kernel, hchecked,
    by decide +kernel, by decide +kernel⟩

end DecisionLang
