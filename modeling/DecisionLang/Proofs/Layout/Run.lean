import DecisionLang.Proofs.Layout.Taken
import DecisionLang.Proofs.Reading.Content
import DecisionLang.Proofs.Token.Tiling

/-!
# Sources read in another place

Two sources are read side by side. A line of one matches a line of the other if neither has content,
if both cannot be scanned for the same fault, or if they have the same tokens at the same depth
(`SourceReading.Matches`). Matching lines keep the readings the same, but for references and
comments, and lines without content may come on either side alone. Main statement:
`SourceReading.alike_of_matches`.
-/

namespace DecisionLang

open Numbered

variable {move : Reference → Reference} {columns : Nat → Nat} {line line' : Line}

/-! ### The log -/

theorem Log.relocate_reportFor (log : Log) (owner : Option String) (diagnostic : Diagnostic) :
    (log.reportFor owner diagnostic).relocate move =
      (log.relocate move).reportFor owner (diagnostic.relocate move) := by
  simp [reportFor, report, add, relocate, LogEntry.relocate, Diagnostic.relocate]

namespace Progress

variable (comments : List Comment) (progress : Progress)

theorem ownerAt_relocate (slot? : Option Nat) :
    (progress.relocate move comments).ownerAt slot? = progress.ownerAt slot? := by
  cases slot? with
  | none => rfl
  | some slot =>
    simp [ownerAt, relocate, Document.relocate, Function.comp_def]

theorem relocate_report (owner : Option String) (diagnostic : Diagnostic) :
    (progress.report owner diagnostic).relocate move comments =
      (progress.relocate move comments).report owner (diagnostic.relocate move) := by
  simp only [report, relocate, Log.relocate_reportFor]

theorem relocate_remarks (owner : Option String) (remarks : List Remark) :
    (remarks.foldl (remark owner) progress).relocate move comments =
      (remarks.map (Remark.relocate move)).foldl (remark owner)
        (progress.relocate move comments) := by
  induction remarks generalizing progress with
  | nil => rfl
  | cons first remarks ih =>
    rw [List.foldl_cons, ih, remark, relocate_report]
    rfl

theorem take?_relocate (h : line.Mirrors move columns line') (grammar : Grammar) (path : SlotPath)
    (owner : Option String) :
    (progress.relocate move comments).take? grammar line' path owner =
      (progress.take? grammar line path owner).map (Prod.map (relocate move comments) id) := by
  have hreading := Receiver.mirrors_receiveAt? h grammar comments path (.document progress.document)
  change Option.Rel _ _ (Receiver.receiveAt? grammar line' path
    (.document (progress.relocate move comments).document)) at hreading
  unfold take?
  -- The line is taken by the same receiver, so only the two readings are compared from here on.
  generalize Receiver.receiveAt? grammar line path (.document progress.document) = reading
    at hreading
  generalize Receiver.receiveAt? grammar line' path
    (.document (progress.relocate move comments).document) = reading' at hreading
  cases hreading with
  | none => rfl
  | @some reading reading' hmirrors =>
    have hrun := hmirrors progress.nextId
    change (reading'.run.run (progress.relocate move comments).nextId :
      Except Diagnostic (Received Receiver) × Nat) = _ at hrun
    dsimp only
    rw [hrun]
    rcases reading.run.run progress.nextId with ⟨diagnostic | received, after⟩
    · simp only [relocateOutcome, Option.map_some, Prod.map_apply, relocate_report]
      rfl
    · obtain ⟨receiver, answer, remarks⟩ := received
      cases receiver with
      | document whole =>
        simp only [relocateOutcome, Received.relocate, Receiver.relocate, Option.map_some,
          Prod.map_apply, relocate_remarks]
        rfl
      | _ => rfl

end Progress

/-! ### Lines -/

theorem Line.read_of_blank {file text : String} {index : Nat}
    (h : text.toList.all Text.isBlank = true) :
    Line.read file index text = .ok ⟨file, index, text, [], none⟩ := by
  have hscan : Token.scan text = .ok [] := by
    rw [Token.scan, ← List.append_nil text.toList,
      Token.scanFrom_blank_append (List.all_eq_true.1 h), Token.scanFrom_nil]
  rw [Line.read, hscan]
  rfl

namespace SourceReading

variable {grammar : Grammar} {width : Nat} {file text : String} {index : Nat}
  (comments : List Comment) (reading : SourceReading)

/-- A line of one source and a line of another, with their indices. -/
inductive Matches (move : Reference → Reference) (width : Nat) (file : String) :
    String × Nat → String × Nat → Prop
  | silent {text text' : String} {index index' : Nat} (h : Line.isContent text = false)
      (h' : Line.isContent text' = false) : Matches move width file (text, index) (text', index')
  | fault {text text' : String} {index index' : Nat} {diagnostic : Diagnostic}
      (hread : Line.read file index text = .error diagnostic)
      (hread' : Line.read file index' text' = .error (diagnostic.relocate move)) :
      Matches move width file (text, index) (text', index')
  | content {text text' : String} {index index' : Nat} {columns : Nat → Nat} {line line' : Line}
      (hread : Line.read file index text = .ok line)
      (hread' : Line.read file index' text' = .ok line')
      (hmirrors : line.Mirrors move columns line')
      (hdepth : line'.depth width = relocateOutcome move id (line.depth width)) :
      Matches move width file (text, index) (text', index')

theorem openOwner_relocate :
    (reading.relocate move comments).openOwner = reading.openOwner :=
  Progress.ownerAt_relocate comments reading.progress _

theorem relocate_reject (diagnostic : Diagnostic) :
    (reading.reject diagnostic).relocate move comments =
      (reading.relocate move comments).reject (diagnostic.relocate move) := by
  simp only [reject, openOwner_relocate]
  simp only [relocate, Progress.relocate_report]

theorem relocate_give (h : line.Mirrors move columns line') (depth : Nat) (path : SlotPath) :
    (reading.give grammar line depth path).relocate move comments =
      (reading.relocate move comments).give grammar line' depth path := by
  have htake := Progress.take?_relocate comments reading.progress h grammar path
    (reading.progress.ownerAt path.head?)
  unfold give
  dsimp only [relocate]
  rw [Progress.ownerAt_relocate, htake]
  cases reading.progress.take? grammar line path (reading.progress.ownerAt path.head?) <;> rfl

theorem relocate_enter (h : line.Mirrors move columns line') (depth : Nat) :
    (reading.enter grammar line depth).relocate move comments =
      (reading.relocate move comments).enter grammar line' depth := by
  unfold enter
  dsimp only [relocate]
  rcases reading.indentation.enter depth with ⟨_ | path, indentation⟩
  · rfl
  · exact relocate_give comments _ h depth path

theorem relocate_place (h : line.Mirrors move columns line')
    (hdepth : line'.depth width = relocateOutcome move id (line.depth width)) :
    (reading.place grammar width line).relocate move comments =
      (reading.relocate move comments).place grammar width line' := by
  unfold place
  rw [hdepth]
  cases line.depth width with
  | error diagnostic => exact relocate_reject comments reading diagnostic
  | ok depth =>
    dsimp only [relocateOutcome, id_eq]
    rw [h.located]
    change _ = if reading.indentation.maxDepth < depth then _ else _
    split
    · exact relocate_reject comments reading _
    · exact relocate_enter comments reading h depth

/-- A line without content only adds comments. -/
theorem readLine_of_silent (h : Line.isContent text = false) :
    ∃ comments, reading.readLine grammar width file text index =
      { reading with progress.document.comments := comments } := by
  unfold readLine
  split
  · exact ⟨_, rfl⟩
  · next hblank =>
    obtain ⟨tokens, hscan, honly⟩ : ∃ tokens, Token.scan text = .ok tokens ∧
        Line.isOnlyComment tokens = true := by
      rw [Line.isContent, eq_false_of_ne_true hblank] at h
      cases hscan : Token.scan text with
      | ok tokens => exact ⟨tokens, rfl, by simpa [hscan] using h⟩
      | error => simp [hscan] at h
    rw [Line.read, hscan]
    dsimp only
    rw [Line.isCommentOnly_ofTokens, if_pos honly]
    exact ⟨_, rfl⟩

/-- A line that cannot be scanned is not blank. -/
theorem readLine_of_error {diagnostic : Diagnostic}
    (h : Line.read file index text = .error diagnostic) :
    reading.readLine grammar width file text index = reading.reject diagnostic := by
  unfold readLine
  split
  · next hblank =>
    rw [Line.read_of_blank hblank] at h
    cases h
  · rw [h]

theorem readLine_of_tokens (h : Line.read file index text = .ok line) (hne : line.tokens ≠ []) :
    reading.readLine grammar width file text index = reading.place grammar width line := by
  unfold readLine
  split
  · next hblank =>
    rw [Line.read_of_blank hblank] at h
    cases h
    exact absurd rfl hne
  · rw [h]
    exact if_neg (by simp [Line.isCommentOnly, hne])

/-- Matching lines are read alike. -/
theorem exists_readLine_matches {item item' : String × Nat}
    (h : Matches move width file item item') :
    ∃ comments', (reading.relocate move comments).readLine grammar width file item'.1 item'.2 =
      (reading.readLine grammar width file item.1 item.2).relocate move comments' := by
  cases h with
  | silent h h' =>
    obtain ⟨_, hread⟩ := readLine_of_silent reading h
    obtain ⟨comments', hread'⟩ := readLine_of_silent (reading.relocate move comments) h'
    rw [hread, hread']
    exact ⟨comments', rfl⟩
  | fault hread hread' =>
    rw [readLine_of_error _ hread, readLine_of_error _ hread', ← relocate_reject]
    exact ⟨comments, rfl⟩
  | content hread hread' hmirrors hdepth =>
    rw [readLine_of_tokens _ hread hmirrors.ne_nil, readLine_of_tokens _ hread' hmirrors.ne_nil',
      ← relocate_place comments reading hmirrors hdepth]
    exact ⟨comments, rfl⟩

/-! ### Lines one after the other -/

/-- Reads lines that have their indices with them. -/
def readItems (grammar : Grammar) (width : Nat) (file : String) (reading : SourceReading)
    (items : List (String × Nat)) : SourceReading :=
  items.foldl (fun reading item => reading.readLine grammar width file item.1 item.2) reading

/-- Two runs of lines are read alike, wherever the reading has come to, but for references and
comments. -/
def Alike (grammar : Grammar) (width : Nat) (file : String) (move : Reference → Reference)
    (items items' : List (String × Nat)) : Prop :=
  ∀ (reading : SourceReading) (comments : List Comment), ∃ comments',
    (reading.relocate move comments).readItems grammar width file items' =
      (reading.readItems grammar width file items).relocate move comments'

variable {items items' others others' : List (String × Nat)}

theorem Alike.append (h : Alike grammar width file move items items')
    (hothers : Alike grammar width file move others others') :
    Alike grammar width file move (items ++ others) (items' ++ others') := by
  intro reading comments
  obtain ⟨between, hread⟩ := h reading comments
  simp only [readItems, List.foldl_append] at hread ⊢
  rw [hread]
  exact hothers _ between

theorem Alike.trans {further : Reference → Reference} {items'' : List (String × Nat)}
    (h : Alike grammar width file move items items')
    (h' : Alike grammar width file further items' items'') :
    Alike grammar width file (further ∘ move) items items'' := by
  intro reading comments
  obtain ⟨between, hread⟩ := h reading []
  obtain ⟨comments', hread'⟩ := h' (reading.relocate move []) comments
  refine ⟨comments', ?_⟩
  rw [hread, relocate_relocate, relocate_relocate] at hread'
  exact hread'

theorem alike_of_matches (h : List.Forall₂ (Matches move width file) items items') :
    Alike grammar width file move items items' := by
  induction h with
  | nil => exact fun reading comments => ⟨comments, rfl⟩
  | @cons item item' _ _ hhead _ ih =>
    intro reading comments
    obtain ⟨between, hread⟩ : ∃ between,
        (reading.relocate move comments).readLine grammar width file item'.1 item'.2 =
          (reading.readLine grammar width file item.1 item.2).relocate move between :=
      exists_readLine_matches comments reading hhead
    simp only [readItems, List.foldl_cons]
    rw [hread]
    exact ih _ between

theorem alike_inserted (index : Nat) (h : Line.isContent text = false) :
    Alike grammar width file move [] [(text, index)] := by
  intro reading comments
  obtain ⟨comments', hread⟩ := readLine_of_silent (reading.relocate move comments) h
  exact ⟨comments', hread⟩

theorem alike_removed (index : Nat) (h : Line.isContent text = false) :
    Alike grammar width file move [(text, index)] [] := by
  intro reading comments
  obtain ⟨_, hread⟩ : ∃ comments', reading.readLine grammar width file text index =
      { reading with progress.document.comments := comments' } := readLine_of_silent reading h
  refine ⟨comments, ?_⟩
  simp only [readItems, List.foldl_cons, List.foldl_nil]
  rw [hread]
  rfl

end SourceReading

end DecisionLang
