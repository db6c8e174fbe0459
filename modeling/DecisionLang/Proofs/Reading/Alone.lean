import DecisionLang.Proofs.Reading.Run
import DecisionLang.Reading.Source

/-!
# Sources read one after another

Reading a source after others adds what reading it alone adds, with the numbers that come next: no
line reaches a declaration of an earlier source. Slots of root declarations are shifted by the
number of earlier ones, else the two readings do the same line by line; only the log can tell that
a name was taken before. Main statement: `Progress.readSource_follows`.
-/

namespace DecisionLang

/-! ### Readings that fail together or give related results -/

namespace Numbered

variable {α β α' β' : Type} {related : α → β → Prop} {related' : α' → β' → Prop}

/-- Outcomes with the same next number, and with the same diagnostic or related results. -/
inductive Agree (related : α → β → Prop) :
    Except Diagnostic α × Nat → Except Diagnostic β × Nat → Prop
  | fails {diagnostic : Diagnostic} {after : Nat} :
      Agree related (.error diagnostic, after) (.error diagnostic, after)
  | gives {first : α} {second : β} {after : Nat} (hrelated : related first second) :
      Agree related (.ok first, after) (.ok second, after)

/-- Two readings fail together or give related results, whatever the next number is. -/
def Together (related : α → β → Prop) (first : Numbered α) (second : Numbered β) : Prop :=
  ∀ next, Agree related (first.run.run next) (second.run.run next)

theorem together_pure {first : α} {second : β} (h : related first second) :
    Together related (pure first) (pure second) :=
  fun _ => .gives h

theorem together_throw (diagnostic : Diagnostic) :
    Together related (throw diagnostic) (throw diagnostic) :=
  fun _ => .fails

theorem together_refl (reading : Numbered α) : Together Eq reading reading := by
  intro next
  rcases reading.run.run next with ⟨diagnostic | result, after⟩
  · exact .fails
  · exact .gives rfl

theorem Together.bind {first : Numbered α} {second : Numbered β} {rest : α → Numbered α'}
    {rest' : β → Numbered β'} (h : Together related first second)
    (hrest : ∀ a b, related a b → Together related' (rest a) (rest' b)) :
    Together related' (first >>= rest) (second >>= rest') := by
  intro next
  rw [run_bind, run_bind]
  have hagree := h next
  generalize first.run.run next = outcome, second.run.run next = outcome' at hagree
  cases hagree with
  | fails => exact .fails
  | gives hrelated => exact hrest _ _ hrelated _

theorem Together.map {first : Numbered α} {second : Numbered β} {f : α → α'} {g : β → β'}
    (h : Together related first second) (hmap : ∀ a b, related a b → related' (f a) (g b)) :
    Together related' (f <$> first) (g <$> second) := by
  rw [map_eq_pure_bind, map_eq_pure_bind]
  exact h.bind fun a b hrelated => together_pure (hmap a b hrelated)

end Numbered

/-! ### Documents and open depths behind others -/

/-- One document behind another. -/
def Document.followedBy (earlier later : Document) : Document where
  declarations := earlier.declarations ++ later.declarations
  inclusions := earlier.inclusions ++ later.inclusions
  comments := earlier.comments ++ later.comments

/-- No inclusion has been processed. -/
def Document.IsNew (document : Document) : Prop :=
  ∀ inclusion ∈ document.inclusions, inclusion.processed = false

/-- The path to the same receiver behind some root declarations. -/
def SlotPath.shift (count : Nat) : SlotPath → SlotPath
  | [] => []
  | slot :: path => (count + slot) :: path

theorem SlotPath.shift_append (count : Nat) (path further : SlotPath) (hne : path ≠ []) :
    shift count (path ++ further) = shift count path ++ further := by
  cases path with
  | nil => exact absurd rfl hne
  | cons => rfl

namespace Indentation

def shift (count : Nat) (indentation : Indentation) : Indentation :=
  ⟨indentation.entries.map (Option.map (SlotPath.shift count)), by
    simpa using indentation.entries_ne_nil⟩

variable {count : Nat} {indentation : Indentation} {depth : Nat} {path : SlotPath}

@[simp] theorem maxDepth_shift : (indentation.shift count).maxDepth = indentation.maxDepth := by
  simp [maxDepth, shift]

theorem receiver?_shift :
    (indentation.shift count).receiver? depth =
      (indentation.receiver? depth).map (SlotPath.shift count) := by
  unfold receiver? shift
  rw [List.getElem?_map]
  rcases indentation.entries[depth]? with _ | _ | path <;> rfl

theorem close_shift :
    (indentation.shift count).close depth = (indentation.close depth).shift count := by
  simp [close, shift, List.map_take]

theorem set_shift (path : Option SlotPath) :
    (indentation.shift count).set depth (path.map (SlotPath.shift count)) =
      (indentation.set depth path).shift count := by
  simp [set, shift, List.map_take]

theorem after_shift (hne : path ≠ []) (answer : Answer) :
    (indentation.shift count).after depth (path.shift count) answer =
      (indentation.after depth path answer).shift count := by
  cases answer with
  | current => exact set_shift (some path)
  | child further =>
    rw [after, after, ← SlotPath.shift_append count path further hne]
    exact set_shift (some _)
  | leaf => rfl
  | ignore => exact set_shift none

end Indentation

/-! ### One line -/

/-- A document after a line, alone and behind another one. The answers open the same receivers. -/
structure Received.Follows (earlier : Document) (path : SlotPath)
    (alone received : Received Receiver) : Prop where
  receiver : ∃ document : Document, alone.receiver = .document document ∧
    received.receiver = .document (earlier.followedBy document) ∧ document.IsNew
  answer : ∀ (indentation : Indentation) depth,
    (indentation.shift earlier.declarations.length).after depth
      (path.shift earlier.declarations.length) received.answer =
    (indentation.after depth path alone.answer).shift earlier.declarations.length

namespace Receiver

open Numbered

variable {grammar : Grammar} {line : Line} {document : Document} (earlier : Document)

theorem follows_leaf (hnew : document.IsNew) (path : SlotPath) :
    Received.Follows earlier path (.leaf (.document document))
      (.leaf (.document (earlier.followedBy document))) :=
  ⟨⟨document, rfl, rfl, hnew⟩, fun _ _ => rfl⟩

theorem follows_addInclusion (hnew : document.IsNew) :
    Received.Follows earlier []
      ((DeclarationLine.addInclusion line document).map .document)
      ((DeclarationLine.addInclusion line (earlier.followedBy document)).map .document) := by
  have hmalformed : Received.Follows earlier []
      ((DeclarationLine.addInclusion.malformed line document).map .document)
      ((DeclarationLine.addInclusion.malformed line (earlier.followedBy document)).map .document) :=
    ⟨⟨document, rfl, rfl, hnew⟩, fun _ _ => rfl⟩
  unfold DeclarationLine.addInclusion
  split
  · split
    · refine ⟨⟨_, rfl, ?_, ?_⟩, fun _ _ => rfl⟩
      · simp [Received.map, Received.leaf, Document.followedBy]
      · intro inclusion hinclusion
        rcases List.mem_append.1 hinclusion with hold | hadded
        · exact hnew inclusion hold
        · rw [List.mem_singleton.1 hadded]
    · exact hmalformed
  · exact hmalformed

theorem follows_addDeclaration (hnew : document.IsNew) (declaration : Declaration) :
    Received.Follows earlier []
      ((DeclarationLine.addDeclaration document declaration).map .document)
      ((DeclarationLine.addDeclaration (earlier.followedBy document) declaration).map
        .document) := by
  refine ⟨⟨_, rfl, ?_, hnew⟩, fun indentation depth => ?_⟩
  · simp [Received.map, DeclarationLine.addDeclaration, Document.followedBy]
  · have hslot : [(earlier.followedBy document).declarations.length] =
        SlotPath.shift earlier.declarations.length [document.declarations.length] := by
      simp [Document.followedBy, SlotPath.shift]
    refine Eq.trans ?_ (Indentation.set_shift (some [document.declarations.length]))
    exact congrArg (fun path => Indentation.set _ (depth + 1) (some path)) hslot

theorem together_receiveRoot (hnew : document.IsNew) :
    Together (Received.Follows earlier []) ((Receiver.document document).receive grammar line)
      ((Receiver.document (earlier.followedBy document)).receive grammar line) := by
  have hleaf : Together (fun (alone received : Received Document) =>
      Received.Follows earlier [] (alone.map .document) (received.map .document))
      (DeclarationLine.receiveRoot line document)
      (DeclarationLine.receiveRoot line (earlier.followedBy document)) := by
    unfold DeclarationLine.receiveRoot
    split
    · exact together_pure (follows_leaf earlier hnew [])
    · split
      · exact together_pure (follows_addInclusion earlier hnew)
      · refine (together_refl _).bind fun name _ hname => ?_
        subst hname
        split
        · exact together_pure (follows_addDeclaration earlier hnew _)
        · exact together_pure (follows_leaf earlier hnew [])
      · exact together_throw _
  exact hleaf.map fun _ _ h => h

theorem slot?_followedBy (document : Document) (slot : Nat) :
    (Receiver.document (earlier.followedBy document)).slot? (earlier.declarations.length + slot) =
      (Receiver.document document).slot? slot := by
  simp only [slot?, Document.followedBy]
  rw [List.getElem?_append_right (Nat.le_add_right _ _), Nat.add_sub_cancel_left]

theorem withSlot_followedBy (hnew : document.IsNew) (slot : Nat) (inner : Receiver) :
    ∃ document' : Document, (Receiver.document document).withSlot slot inner = .document document' ∧
      (Receiver.document (earlier.followedBy document)).withSlot
        (earlier.declarations.length + slot) inner = .document (earlier.followedBy document') ∧
      document'.IsNew := by
  unfold withSlot
  cases inner.declaration? with
  | none => exact ⟨document, rfl, rfl, hnew⟩
  | some declaration =>
    refine ⟨_, rfl, ?_, hnew⟩
    simp only [Document.followedBy]
    rw [List.set_append_right _ _ (Nat.le_add_right _ _), Nat.add_sub_cancel_left]

theorem receiveAt?_followedBy (grammar : Grammar) (line : Line) (hnew : document.IsNew)
    (path : SlotPath) :
    Option.Rel (Together (Received.Follows earlier path))
      ((Receiver.document document).receiveAt? grammar line path)
      ((Receiver.document (earlier.followedBy document)).receiveAt? grammar line
        (path.shift earlier.declarations.length)) := by
  cases path with
  | nil => exact .some (together_receiveRoot earlier hnew)
  | cons slot path =>
    simp only [SlotPath.shift, receiveAt?, slot?_followedBy]
    cases (Receiver.document document).slot? slot with
    | none => exact .none
    | some inner =>
      simp only [Option.bind_eq_bind, Option.bind_some]
      cases receiveAt? grammar line path inner with
      | none => exact .none
      | some reading =>
        refine .some ((together_refl reading).map ?_)
        rintro received _ rfl
        exact ⟨withSlot_followedBy earlier hnew slot received.receiver,
          fun _ _ => Indentation.after_shift (List.cons_ne_nil _ _) _⟩

end Receiver

/-- What has been read, alone and behind an earlier document. -/
structure Progress.Follows (earlier : Document) (alone progress : Progress) : Prop where
  document : progress.document = earlier.followedBy alone.document
  nextId : progress.nextId = alone.nextId
  isNew : alone.document.IsNew

namespace Progress

variable {grammar : Grammar} {line : Line} {earlier : Document} {alone progress : Progress}

theorem Follows.report (h : alone.Follows earlier progress) (owner owner' : Option String)
    (diagnostic : Diagnostic) :
    (alone.report owner diagnostic).Follows earlier (progress.report owner' diagnostic) :=
  ⟨h.document, h.nextId, h.isNew⟩

theorem Follows.remarks (h : alone.Follows earlier progress) (owner owner' : Option String)
    (remarks remarks' : List Remark) :
    (remarks.foldl (remark owner) alone).Follows earlier
      (remarks'.foldl (remark owner') progress) := by
  obtain ⟨hdocument, hnext, _⟩ := foldl_remark owner remarks alone
  obtain ⟨hdocument', hnext', _⟩ := foldl_remark owner' remarks' progress
  refine ⟨by rw [hdocument, hdocument', h.document], by rw [hnext, hnext', h.nextId], ?_⟩
  rw [hdocument]
  exact h.isNew

theorem Follows.take? (h : alone.Follows earlier progress) (grammar : Grammar) (line : Line)
    (path : SlotPath) (owner owner' : Option String) :
    Option.Rel (fun taken taken' => taken.1.Follows earlier taken'.1 ∧
        ∀ (indentation : Indentation) depth,
          (indentation.shift earlier.declarations.length).after depth
            (path.shift earlier.declarations.length) taken'.2 =
          (indentation.after depth path taken.2).shift earlier.declarations.length)
      (alone.take? grammar line path owner)
      (progress.take? grammar line (path.shift earlier.declarations.length) owner') := by
  have hreading := Receiver.receiveAt?_followedBy earlier grammar line h.isNew path
  unfold Progress.take?
  rw [h.document, h.nextId]
  generalize Receiver.receiveAt? grammar line path _ = reading?,
    Receiver.receiveAt? grammar line (path.shift _) _ = reading?' at hreading
  cases hreading with
  | none => exact .none
  | some htogether =>
    next reading reading' =>
    dsimp only
    have hagree := htogether alone.nextId
    generalize reading.run.run alone.nextId = outcome,
      reading'.run.run alone.nextId = outcome' at hagree
    cases hagree with
    | fails => exact .some ⟨⟨rfl, rfl, h.isNew⟩, fun _ _ => Indentation.set_shift none⟩
    | @gives received received' next hfollows =>
      obtain ⟨⟨document, hreceived, hreceived', hnew⟩, hanswer⟩ := hfollows
      dsimp only
      rw [hreceived, hreceived']
      have hread : Follows earlier { alone with document, nextId := next }
          { progress with document := earlier.followedBy document, nextId := next } :=
        ⟨rfl, rfl, hnew⟩
      exact .some ⟨hread.remarks _ _ _ _, hanswer⟩

end Progress

/-! ### All lines of a source -/

/-- A reading of a source, alone and behind an earlier document. -/
structure SourceReading.Follows (earlier : Document) (alone reading : SourceReading) : Prop where
  progress : alone.progress.Follows earlier reading.progress
  indentation : reading.indentation = alone.indentation.shift earlier.declarations.length

namespace SourceReading

variable {grammar : Grammar} {line : Line} {earlier : Document} {alone reading : SourceReading}

theorem Follows.reject (h : alone.Follows earlier reading) (diagnostic : Diagnostic) :
    (alone.reject diagnostic).Follows earlier (reading.reject diagnostic) :=
  ⟨h.progress.report _ _ diagnostic, h.indentation⟩

theorem Follows.addComment (h : alone.Follows earlier reading) (line : Line) :
    (alone.addComment line).Follows earlier (reading.addComment line) := by
  refine ⟨⟨?_, h.progress.nextId, h.progress.isNew⟩, h.indentation⟩
  simp only [SourceReading.addComment, h.progress.document, Document.followedBy,
    List.append_assoc]

theorem Follows.give (h : alone.Follows earlier reading) (depth : Nat) (path : SlotPath) :
    (alone.give grammar line depth path).Follows earlier
      (reading.give grammar line depth (path.shift earlier.declarations.length)) := by
  have htaken := h.progress.take? grammar line path
    (alone.progress.ownerAt path.head?)
    (reading.progress.ownerAt (path.shift earlier.declarations.length).head?)
  unfold SourceReading.give
  dsimp only
  generalize alone.progress.take? grammar line path _ = taken?,
    reading.progress.take? grammar line _ _ = taken?' at htaken
  cases htaken with
  | none =>
    refine ⟨h.progress, ?_⟩
    rw [h.indentation]
    exact Indentation.set_shift none
  | some hafter =>
    refine ⟨hafter.1, ?_⟩
    rw [h.indentation]
    exact hafter.2 _ _

theorem Follows.enter (h : alone.Follows earlier reading) (depth : Nat) :
    (alone.enter grammar line depth).Follows earlier (reading.enter grammar line depth) := by
  unfold SourceReading.enter Indentation.enter
  rw [h.indentation, Indentation.receiver?_shift, Indentation.close_shift]
  cases alone.indentation.receiver? depth with
  | none => exact ⟨h.progress, Indentation.set_shift none⟩
  | some path =>
    have hclosed : Follows earlier ⟨alone.progress, alone.indentation.close depth⟩
        ⟨reading.progress, (alone.indentation.close depth).shift earlier.declarations.length⟩ :=
      ⟨h.progress, rfl⟩
    exact hclosed.give depth path

theorem Follows.readLine (h : alone.Follows earlier reading) (width : Nat) (file text : String)
    (index : Nat) :
    (alone.readLine grammar width file text index).Follows earlier
      (reading.readLine grammar width file text index) := by
  unfold SourceReading.readLine
  split
  · exact h
  · split
    · exact h.reject _
    · split
      · exact h.addComment _
      · unfold SourceReading.place
        split
        · exact h.reject _
        · rw [h.indentation, Indentation.maxDepth_shift]
          dsimp only
          split
          · exact h.reject _
          · exact h.enter _

end SourceReading

namespace Progress

variable {grammar : Grammar}

/-- A source is read behind others as it is read alone, from the next number on. -/
theorem readSource_follows (grammar : Grammar) (progress : Progress) (width : Nat) (file : String)
    (lines : List String) :
    (({ nextId := progress.nextId } : Progress).readSource grammar width file lines).Follows
      progress.document (progress.readSource grammar width file lines) := by
  have hstart : SourceReading.Follows progress.document
      ⟨{ nextId := progress.nextId }, Indentation.start⟩ ⟨progress, Indentation.start⟩ := by
    refine ⟨⟨?_, rfl, List.forall_mem_nil _⟩, rfl⟩
    simp [Document.followedBy]
  unfold readSource
  generalize (⟨progress, Indentation.start⟩ : SourceReading) = reading,
    (⟨{ nextId := progress.nextId }, Indentation.start⟩ : SourceReading) = alone at hstart ⊢
  generalize progress.document = earlier at hstart ⊢
  induction lines.zipIdx generalizing alone reading with
  | nil => exact hstart.progress
  | cons item items ih => exact ih _ _ (hstart.readLine width file item.1 item.2)

end Progress

end DecisionLang
