import DecisionLang.Proofs.Files.MemoryFiles
import DecisionLang.Proofs.Reading.Alone
import Mathlib.Data.List.Nodup
import Mathlib.Data.Nat.Find
import Mathlib.Logic.Function.Iterate

/-!
# Inclusions are processed until none is left

Inclusions are processed in the order in which they were read, those of a source that is read on
the way after all that are left, so that a round ends where the next one begins. A source is known
by the normal form of its path and read once; since every inclusion that adds one shortens the list
of the others, the rounds come to an end. Main statement:
`MemoryFiles.exists_sources_of_readIncluding`.
-/

namespace DecisionLang

open Numbered

theorem Inclusion.isFile_of_files? {inclusion : Inclusion} {files : FileSystem}
    {extension : String} {included : List SourcePath} (hfiles : files.IsComplete)
    (h : inclusion.files? files extension = some included) :
    ∀ file ∈ included, files.isFile file = true := by
  unfold Inclusion.files? at h
  dsimp only at h
  split at h
  · exact hfiles.inside _ _ _ h
  · split at h
    · next hfile =>
      cases h
      simpa using hfile
    · cases h

/-- A source that is read: the path it is named by, and its lines. -/
structure SourceText where
  path : SourcePath
  lines : List String

/-! ### Sources one after another -/

namespace Progress

def readText (grammar : Grammar) (width : Nat) (progress : Progress) (source : SourceText) :
    Progress :=
  progress.readSource grammar width source.path.text source.lines

def readTexts (grammar : Grammar) (width : Nat) (progress : Progress)
    (sources : List SourceText) : Progress :=
  sources.foldl (readText grammar width) progress

end Progress

/-- The document that a source gives if it is read alone, from some number on. -/
def SourceText.Gives (grammar : Grammar) (width : Nat) (source : SourceText) (next : Nat)
    (document : Document) (after : Nat) : Prop :=
  let alone := ({ nextId := next } : Progress).readText grammar width source
  document = alone.document ∧ after = alone.nextId

def SourceText.normal (files : FileSystem) (source : SourceText) : SourcePath :=
  files.normal source.path

def Inclusion.done (inclusion : Inclusion) : Inclusion := { inclusion with processed := true }

namespace Progress

def mark (progress : Progress) (index : Nat) (inclusion : Inclusion) : Progress :=
  { progress with
    document.inclusions := progress.document.inclusions.set index inclusion.done }

/-- What has been read are the documents of some sources, each read alone, one behind another. -/
structure Gathers (grammar : Grammar) (width : Nat) (sources : List SourceText)
    (documents : List Document) (progress : Progress) : Prop where
  inTurn : InOrder (SourceText.Gives grammar width) sources 0 documents progress.nextId
  declarations : progress.document.declarations = documents.flatMap Document.declarations
  inclusions : progress.document.inclusions.map Inclusion.done =
    (documents.flatMap Document.inclusions).map Inclusion.done

variable {grammar : Grammar} {width : Nat} {progress : Progress} {sources : List SourceText}
  {documents : List Document}

theorem gathers_start (source : SourceText) :
    ∃ documents, (({} : Progress).readText grammar width source).Gathers grammar width [source]
      documents :=
  ⟨[_], .cons ⟨rfl, rfl⟩ .nil, (List.flatMap_singleton _ _).symm,
    congrArg _ (List.flatMap_singleton _ _).symm⟩

theorem Gathers.readText (h : progress.Gathers grammar width sources documents)
    (source : SourceText) :
    ∃ document, (progress.readText grammar width source).Gathers grammar width
      (sources ++ [source]) (documents ++ [document]) := by
  have hfollows := progress.readSource_follows grammar width source.path.text source.lines
  refine ⟨_, h.inTurn.append (.cons ⟨rfl, hfollows.nextId⟩ .nil), ?_, ?_⟩
  · rw [List.flatMap_append, ← h.declarations, List.flatMap_singleton]
    exact congrArg Document.declarations hfollows.document
  · rw [List.flatMap_append, List.map_append, ← h.inclusions, List.flatMap_singleton,
      ← List.map_append]
    exact congrArg (fun document => document.inclusions.map Inclusion.done) hfollows.document

theorem Gathers.mark {index : Nat} {inclusion : Inclusion}
    (h : progress.Gathers grammar width sources documents)
    (hinclusion : progress.document.inclusions[index]? = some inclusion) :
    (progress.mark index inclusion).Gathers grammar width sources documents := by
  refine ⟨h.inTurn, h.declarations, ?_⟩
  have hsame : (progress.document.inclusions.map Inclusion.done)[index]? =
      some inclusion.done.done := by simp [hinclusion, Inclusion.done]
  obtain ⟨_, hitem⟩ := List.getElem?_eq_some_iff.1 hsame
  rw [← h.inclusions, Progress.mark, List.map_set, ← hitem, List.set_getElem_self]

theorem Gathers.report (h : progress.Gathers grammar width sources documents)
    (owner : Option String) (diagnostic : Diagnostic) :
    (progress.report owner diagnostic).Gathers grammar width sources documents :=
  ⟨h.inTurn, h.declarations, h.inclusions⟩

/-- Sources add inclusions behind those that are there, and process none. -/
theorem exists_added (progress : Progress) (sources : List SourceText) :
    ∃ added : List Inclusion, (∀ inclusion ∈ added, inclusion.processed = false) ∧
      (progress.readTexts grammar width sources).document.inclusions =
        progress.document.inclusions ++ added := by
  induction sources generalizing progress with
  | nil => exact ⟨[], List.forall_mem_nil _, (List.append_nil _).symm⟩
  | cons source sources ih =>
    have hfollows := progress.readSource_follows grammar width source.path.text source.lines
    obtain ⟨added, hadded, hinclusions⟩ := ih (progress.readText grammar width source)
    refine ⟨_ ++ added, List.forall_mem_append.2 ⟨hfollows.isNew, hadded⟩, hinclusions.trans ?_⟩
    rw [← List.append_assoc]
    exact congrArg (fun document => document.inclusions ++ added) hfollows.document

end Progress

/-! ### One inclusion -/

/-- What is done about the inclusion with some index: it is marked, and it is an error if it stands
for no files, else those of its files that no source has been read for are read. -/
inductive Progress.Handles (grammar : Grammar) (options : ReadOptions) (files : FileSystem)
    (index : Nat) (sources : List SourceText) (progress progress' : Progress) :
    List SourceText → Prop
  | refused {inclusion : Inclusion}
      (hinclusion : progress.document.inclusions[index]? = some inclusion)
      (hfiles : inclusion.files? files options.fileExtension = none)
      (hprogress : progress' = (progress.mark index inclusion).report none
        ((Fault.invalidInclude inclusion.fileName).located inclusion.reference)) :
      Handles grammar options files index sources progress progress' []
  | read {inclusion : Inclusion} {included : List SourcePath} {group : List SourceText}
      (hinclusion : progress.document.inclusions[index]? = some inclusion)
      (hfiles : inclusion.files? files options.fileExtension = some included)
      (hgroup : (group.map SourceText.path).Sublist included)
      (hlines : ∀ source ∈ group, files.readLines source.path = .ok source.lines)
      (hincluded : ∀ file ∈ included,
        files.normal file ∈ (sources ++ group).map (SourceText.normal files))
      (hprogress : progress' =
        (progress.mark index inclusion).readTexts grammar options.indentWidth group) :
      Handles grammar options files index sources progress progress' group

namespace Including

/-- The sources that have been read account for the document and for the files that are unread. -/
structure Accounts (grammar : Grammar) (options : ReadOptions) (files : FileSystem)
    (sources : List SourceText) (state : Including) : Prop where
  gathers : ∃ documents, state.progress.Gathers grammar options.indentWidth sources documents
  unread : state.unread = files.files.filter fun file =>
    !(sources.map (SourceText.normal files)).contains file
  distinct : (sources.map (SourceText.normal files)).Nodup

variable {grammar : Grammar} {options : ReadOptions} {files : FileSystem} {state : Including}
  {sources : List SourceText} {inclusion : Inclusion} {file : SourcePath}

theorem readNamed_cases (hfiles : files.IsComplete) (hfile : files.isFile file = true)
    (h : state.Accounts grammar options files sources) (inclusion : Inclusion) :
    (files.normal file ∈ sources.map (SourceText.normal files) ∧
      readNamed grammar options files inclusion state file = state) ∨
    ∃ lines, files.readLines file = .ok lines ∧
      (readNamed grammar options files inclusion state file).progress =
        state.progress.readText grammar options.indentWidth ⟨file, lines⟩ ∧
      (readNamed grammar options files inclusion state file).Accounts grammar options files
        (sources ++ [⟨file, lines⟩]) := by
  unfold readNamed
  dsimp only
  split
  · next hunread =>
    right
    obtain ⟨lines, hlines⟩ := hfiles.readable file hfile
    have hnew : files.normal file ∉ sources.map (SourceText.normal files) := by
      rw [h.unread, List.contains_iff_mem, List.mem_filter] at hunread
      simpa using hunread.2
    refine ⟨lines, hlines, ?_, ?_⟩
    · rw [hlines]
      rfl
    · rw [hlines]
      obtain ⟨documents, hgathers⟩ := h.gathers
      obtain ⟨document, hnext⟩ := hgathers.readText ⟨file, lines⟩
      refine ⟨⟨_, hnext⟩, ?_, ?_⟩
      · dsimp only
        rw [h.unread, List.filter_filter, List.map_append]
        refine List.filter_congr fun other _ => ?_
        rw [Bool.eq_iff_iff]
        simp [SourceText.normal, and_comm]
      · rw [List.map_append]
        exact h.distinct.append (List.nodup_singleton _) (List.disjoint_singleton.2 hnew)
  · next hread =>
    refine .inl ⟨?_, rfl⟩
    by_contra hnew
    rw [h.unread, List.contains_iff_mem, List.mem_filter] at hread
    exact hread ⟨hfiles.listed file hfile, by simpa using hnew⟩

/-- Files of an inclusion are read in order, those that have been read already left out. -/
theorem exists_group (hfiles : files.IsComplete) (inclusion : Inclusion)
    {included : List SourcePath} (hincluded : ∀ file ∈ included, files.isFile file = true)
    (h : state.Accounts grammar options files sources) :
    ∃ group : List SourceText, (group.map SourceText.path).Sublist included ∧
      (∀ source ∈ group, files.readLines source.path = .ok source.lines) ∧
      (∀ file ∈ included,
        files.normal file ∈ (sources ++ group).map (SourceText.normal files)) ∧
      (included.foldl (readNamed grammar options files inclusion) state).progress =
        state.progress.readTexts grammar options.indentWidth group ∧
      (included.foldl (readNamed grammar options files inclusion) state).Accounts grammar options
        files (sources ++ group) := by
  induction included generalizing state sources with
  | nil => exact ⟨[], .slnil, List.forall_mem_nil _, List.forall_mem_nil _, rfl, by simpa using h⟩
  | cons file included ih =>
    obtain ⟨hfile, hrest⟩ := List.forall_mem_cons.1 hincluded
    rcases readNamed_cases hfiles hfile h inclusion with
      ⟨hread, hsame⟩ | ⟨lines, hlines, hprogress, haccounts⟩
    · obtain ⟨group, hsublist, hgroup, hall, hprogress, haccounts⟩ := ih hrest h
      rw [List.foldl_cons, hsame]
      refine ⟨group, hsublist.cons _, hgroup, List.forall_mem_cons.2 ⟨?_, hall⟩, hprogress,
        haccounts⟩
      rw [List.map_append]
      exact List.mem_append_left _ hread
    · obtain ⟨group, hsublist, hgroup, hall, hreads, hlast⟩ := ih hrest haccounts
      rw [List.append_assoc, List.singleton_append] at hall hlast
      refine ⟨⟨file, lines⟩ :: group, hsublist.cons_cons _,
        List.forall_mem_cons.2 ⟨hlines, hgroup⟩, List.forall_mem_cons.2 ⟨?_, hall⟩, ?_, hlast⟩
      · exact List.mem_map.2 ⟨⟨file, lines⟩, by simp, rfl⟩
      · rw [List.foldl_cons, hreads, hprogress]
        rfl

theorem Accounts.mark {index : Nat} (h : state.Accounts grammar options files sources)
    (hinclusion : state.progress.document.inclusions[index]? = some inclusion) :
    ({ state with progress := state.progress.mark index inclusion } : Including).Accounts grammar
      options files sources := by
  obtain ⟨documents, hgathers⟩ := h.gathers
  exact ⟨⟨documents, hgathers.mark hinclusion⟩, h.unread, h.distinct⟩

/-- The next inclusion is refused, or its files are read. -/
theorem exists_handles (hfiles : files.IsComplete) {index : Nat}
    (h : state.Accounts grammar options files sources)
    (hinclusion : state.progress.document.inclusions[index]? = some inclusion) :
    ∃ group, state.progress.Handles grammar options files index sources
        (state.process grammar options files index).progress group ∧
      (state.process grammar options files index).Accounts grammar options files
        (sources ++ group) := by
  have hmarked := h.mark hinclusion
  unfold process
  rw [hinclusion]
  dsimp only
  split
  · next hnone =>
    refine ⟨[], .refused hinclusion hnone rfl, ?_⟩
    obtain ⟨documents, hgathers⟩ := hmarked.gathers
    rw [List.append_nil]
    exact ⟨⟨documents, hgathers.report _ _⟩, hmarked.unread, hmarked.distinct⟩
  · next included hincluded =>
    have hexist := inclusion.isFile_of_files? hfiles hincluded
    obtain ⟨group, hsublist, hlines, hall, hprogress, haccounts⟩ :=
      exists_group hfiles inclusion.done hexist hmarked
    exact ⟨group, .read hinclusion hincluded hsublist hlines hall hprogress, haccounts⟩

end Including

/-! ### One inclusion after another -/

/-- An inclusion stands for no files, or all its files are among the sources. -/
def Inclusion.IsMet (options : ReadOptions) (files : FileSystem) (sources : List SourceText)
    (inclusion : Inclusion) : Prop :=
  inclusion.files? files options.fileExtension = none ∨
    ∃ included, inclusion.files? files options.fileExtension = some included ∧
      ∀ file ∈ included, files.normal file ∈ sources.map (SourceText.normal files)

/-- A source is one of the files that an inclusion stands for. -/
def SourceText.IsNamedBy (options : ReadOptions) (files : FileSystem) (inclusion : Inclusion)
    (source : SourceText) : Prop :=
  ∃ included, inclusion.files? files options.fileExtension = some included ∧
    source.path ∈ included ∧ files.readLines source.path = .ok source.lines

namespace Progress

/-- The first inclusions have been handled in turn, which has read some sources. -/
inductive Resolves (grammar : Grammar) (options : ReadOptions) (files : FileSystem)
    (main : SourceText) : Nat → List SourceText → Progress → Prop
  | start : Resolves grammar options files main 0 [main]
      (({} : Progress).readText grammar options.indentWidth main)
  | next {index : Nat} {sources group : List SourceText} {progress progress' : Progress}
      (hearlier : Resolves grammar options files main index sources progress)
      (hhandles : progress.Handles grammar options files index sources progress' group) :
      Resolves grammar options files main (index + 1) (sources ++ group) progress'

/-- Inclusions that have been processed stand before those that are left. -/
structure Splits (progress : Progress) (before after : List Inclusion) : Prop where
  inclusions : progress.document.inclusions = before ++ after
  processed : ∀ inclusion ∈ before, inclusion.processed = true
  left : ∀ inclusion ∈ after, inclusion.processed = false

variable {grammar : Grammar} {options : ReadOptions} {files : FileSystem}
  {progress progress' : Progress} {sources group : List SourceText} {inclusion : Inclusion}
  {before after : List Inclusion} {index : Nat}

theorem Handles.exists_behind
    (h : progress.Handles grammar options files index sources progress' group)
    (hinclusion : progress.document.inclusions[index]? = some inclusion) :
    ∃ added : List Inclusion, (∀ inclusion ∈ added, inclusion.processed = false) ∧
      progress'.document.inclusions =
        progress.document.inclusions.set index inclusion.done ++ added := by
  cases h with
  | refused hinclusion' _ hprogress =>
    cases hinclusion.symm.trans hinclusion'
    exact ⟨[], List.forall_mem_nil _, by rw [hprogress, List.append_nil]; rfl⟩
  | read hinclusion' _ _ _ _ hprogress =>
    cases hinclusion.symm.trans hinclusion'
    rw [hprogress]
    exact exists_added (progress.mark index inclusion) group

theorem Splits.getElem? (h : progress.Splits before (inclusion :: after)) :
    progress.document.inclusions[before.length]? = some inclusion := by
  rw [h.inclusions, List.getElem?_append_right (Nat.le_refl _), Nat.sub_self,
    List.getElem?_cons_zero]

/-- What an inclusion adds comes after all that are left. -/
theorem Splits.next (h : progress.Splits before (inclusion :: after))
    (hhandles : progress.Handles grammar options files before.length sources progress' group) :
    ∃ added, progress'.Splits (before ++ [inclusion.done]) (after ++ added) := by
  obtain ⟨added, hadded, hinclusions⟩ := hhandles.exists_behind h.getElem?
  refine ⟨added, ?_, List.forall_mem_append.2 ⟨h.processed, by simp [Inclusion.done]⟩,
    List.forall_mem_append.2 ⟨(List.forall_mem_cons.1 h.left).2, hadded⟩⟩
  rw [hinclusions, h.inclusions, List.set_append_right _ _ (Nat.le_refl _), Nat.sub_self]
  simp

theorem Handles.isMet (h : progress.Handles grammar options files index sources progress' group)
    (hinclusion : progress.document.inclusions[index]? = some inclusion) :
    inclusion.IsMet options files (sources ++ group) := by
  cases h with
  | refused hinclusion' hfiles =>
    cases hinclusion.symm.trans hinclusion'
    exact .inl hfiles
  | read hinclusion' hfiles _ _ hincluded =>
    cases hinclusion.symm.trans hinclusion'
    exact .inr ⟨_, hfiles, hincluded⟩

theorem Handles.isNamedBy
    (h : progress.Handles grammar options files index sources progress' group)
    (hinclusion : progress.document.inclusions[index]? = some inclusion) :
    ∀ source ∈ group, source.IsNamedBy options files inclusion := by
  cases h with
  | refused => exact List.forall_mem_nil _
  | read hinclusion' hfiles hgroup hlines =>
    cases hinclusion.symm.trans hinclusion'
    intro source hsource
    exact ⟨_, hfiles, hgroup.subset (List.mem_map_of_mem hsource), hlines source hsource⟩

end Progress

theorem Inclusion.IsMet.append {options : ReadOptions} {files : FileSystem}
    {sources : List SourceText} {inclusion : Inclusion}
    (h : inclusion.IsMet options files sources) (group : List SourceText) :
    inclusion.IsMet options files (sources ++ group) := by
  refine h.imp id ?_
  rintro ⟨included, hfiles, hincluded⟩
  refine ⟨included, hfiles, fun file hfile => ?_⟩
  rw [List.map_append]
  exact List.mem_append_left _ (hincluded file hfile)

namespace Including

def start (grammar : Grammar) (options : ReadOptions) (files : FileSystem) (main : SourceText) :
    Including :=
  ⟨({} : Progress).readText grammar options.indentWidth main,
    files.files.filter (· != main.normal files)⟩

def afterRounds (grammar : Grammar) (options : ReadOptions) (files : FileSystem)
    (main : SourceText) (count : Nat) : Including :=
  (round grammar options files)^[count] (start grammar options files main)

/-- What is known between two inclusions. -/
structure Reaches (grammar : Grammar) (options : ReadOptions) (files : FileSystem)
    (main : SourceText) (others : List SourceText) (before after : List Inclusion)
    (state : Including) : Prop where
  accounts : state.Accounts grammar options files (main :: others)
  splits : state.progress.Splits before after
  resolves : state.progress.Resolves grammar options files main before.length (main :: others)
  isMet : ∀ inclusion ∈ before, inclusion.IsMet options files (main :: others)
  isNamed : ∀ source ∈ others, ∃ inclusion ∈ before, source.IsNamedBy options files inclusion

variable {grammar : Grammar} {options : ReadOptions} {files : FileSystem} {state : Including}
  {main : SourceText} {others : List SourceText} {before after : List Inclusion}
  {inclusion : Inclusion}

theorem reaches_start (grammar : Grammar) (options : ReadOptions) (files : FileSystem)
    (main : SourceText) :
    ∃ after, (start grammar options files main).Reaches grammar options files main [] [] after := by
  have hfollows := ({} : Progress).readSource_follows grammar options.indentWidth main.path.text
    main.lines
  refine ⟨(start grammar options files main).progress.document.inclusions,
    ⟨Progress.gathers_start main, ?_, List.nodup_singleton _⟩,
    ⟨rfl, List.forall_mem_nil _, hfollows.isNew⟩, .start, List.forall_mem_nil _,
    List.forall_mem_nil _⟩
  refine List.filter_congr fun file _ => ?_
  rw [Bool.eq_iff_iff]
  simp [SourceText.normal]

theorem Reaches.next (hfiles : files.IsComplete)
    (h : state.Reaches grammar options files main others before (inclusion :: after)) :
    ∃ group added, (state.process grammar options files before.length).Reaches grammar options
      files main (others ++ group) (before ++ [inclusion.done]) (after ++ added) := by
  have hinclusion := h.splits.getElem?
  obtain ⟨group, hhandles, haccounts⟩ := exists_handles hfiles h.accounts hinclusion
  obtain ⟨added, hsplits⟩ := h.splits.next hhandles
  refine ⟨group, added, haccounts, hsplits, ?_, List.forall_mem_append.2 ⟨?_, ?_⟩,
    List.forall_mem_append.2 ⟨?_, ?_⟩⟩
  · rw [List.length_append]
    exact .next h.resolves hhandles
  · exact fun other hother => (h.isMet other hother).append group
  · rintro _ hlast
    rw [List.mem_singleton.1 hlast]
    exact (hhandles.isMet hinclusion : inclusion.IsMet options files _)
  · intro source hsource
    obtain ⟨other, hother, hnamed⟩ := h.isNamed source hsource
    exact ⟨other, List.mem_append_left _ hother, hnamed⟩
  · intro source hsource
    exact ⟨inclusion.done, by simp, hhandles.isNamedBy hinclusion source hsource⟩

theorem Reaches.all (hfiles : files.IsComplete) (todo later : List Inclusion)
    (h : state.Reaches grammar options files main others before (todo ++ later)) :
    ∃ others' before' later', before'.length = before.length + todo.length ∧
      ((List.range' before.length todo.length).foldl (process grammar options files)
        state).Reaches grammar options files main others' before' later' := by
  induction todo generalizing state others before later with
  | nil => exact ⟨others, before, later, rfl, h⟩
  | cons inclusion todo ih =>
    obtain ⟨group, added, hnext⟩ := h.next hfiles
    obtain ⟨others', before', later', hlength, hlast⟩ :=
      ih (later ++ added) (by rwa [← List.append_assoc])
    rw [List.length_append, List.length_singleton] at hlength hlast
    refine ⟨others', before', later', ?_, ?_⟩
    · rw [hlength, List.length_cons]
      omega
    · rwa [List.length_cons, List.range'_succ, List.foldl_cons]

theorem pending_eq (h : state.progress.Splits before after) :
    state.pending = List.range' before.length after.length := by
  have hbefore : (before.zipIdx.filter fun item => !item.1.processed) = [] := by
    rw [List.filter_eq_nil_iff]
    intro item hitem
    simp [h.processed _ (List.fst_mem_of_mem_zipIdx hitem)]
  have hafter : ((after.zipIdx before.length).filter fun item => !item.1.processed) =
      after.zipIdx before.length := by
    rw [List.filter_eq_self]
    intro item hitem
    simp [h.left _ (List.fst_mem_of_mem_zipIdx hitem)]
  rw [pending, h.inclusions, List.zipIdx_append, List.filter_append, hbefore, Nat.zero_add, hafter,
    List.nil_append, List.zipIdx_map_snd]

theorem Reaches.afterRound (hfiles : files.IsComplete)
    (h : state.Reaches grammar options files main others before after) :
    ∃ others' before' after', before'.length = before.length + after.length ∧
      (state.round grammar options files).Reaches grammar options files main others' before'
        after' := by
  rw [Including.round, pending_eq h.splits]
  exact Reaches.all hfiles after [] (by rwa [List.append_nil])

/-! ### The end of the rounds -/

/-- Some file has been read, or no inclusion has been added. -/
def Advances (state next : Including) : Prop :=
  next.unread.length < state.unread.length ∨
    next.unread.length = state.unread.length ∧
      next.progress.document.inclusions.length = state.progress.document.inclusions.length

theorem Advances.refl (state : Including) : state.Advances state := .inr ⟨rfl, rfl⟩

theorem Advances.trans {first second third : Including} (h : first.Advances second)
    (h' : second.Advances third) : first.Advances third := by
  unfold Advances at h h' ⊢
  omega

theorem advances_foldl {α : Type} {step : Including → α → Including}
    (hstep : ∀ state item, Advances state (step state item)) (items : List α)
    (state : Including) : state.Advances (items.foldl step state) := by
  induction items generalizing state with
  | nil => exact .refl state
  | cons item items ih => exact (hstep state item).trans (ih _)

theorem advances_readNamed (inclusion : Inclusion) (state : Including) (file : SourcePath) :
    state.Advances (readNamed grammar options files inclusion state file) := by
  unfold readNamed
  dsimp only
  split
  · next hunread =>
    have hless : (state.unread.filter (· != files.normal file)).length < state.unread.length := by
      refine List.length_filter_lt_length_iff_exists.2 ⟨files.normal file, ?_, by simp⟩
      exact List.contains_iff_mem.1 hunread
    split
    · exact .inl hless
    · exact .inl hless
  · exact .refl state

theorem advances_process (state : Including) (index : Nat) :
    state.Advances (state.process grammar options files index) := by
  unfold process
  split
  · exact .refl state
  · next inclusion _ =>
    have hmarked : state.Advances ⟨state.progress.mark index inclusion, state.unread⟩ :=
      .inr ⟨rfl, by simp [Progress.mark]⟩
    dsimp only
    split
    · exact hmarked.trans (.inr ⟨rfl, rfl⟩)
    · exact hmarked.trans (advances_foldl (advances_readNamed _) _ _)

theorem advances_round (grammar : Grammar) (options : ReadOptions) (files : FileSystem)
    (state : Including) :
    state.Advances (state.round grammar options files) :=
  advances_foldl advances_process _ _

/-- Nothing is left when the rounds end. -/
theorem Reaches.atEnd (hfiles : files.IsComplete)
    (h : state.Reaches grammar options files main others before after) :
    ∃ rounds others' before',
      (round grammar options files)^[rounds] state = state.resolve grammar options files ∧
      (state.resolve grammar options files).Reaches grammar options files main others' before'
        [] := by
  fun_induction resolve grammar options files state generalizing others before after with
  | case1 state next =>
    rename_i hless ih
    obtain ⟨others', before', after', _, hnext⟩ := h.afterRound hfiles
    obtain ⟨rounds, others'', before'', hrounds, hlast⟩ := ih hnext
    exact ⟨rounds + 1, others'', before'', hrounds, hlast⟩
  | case2 state next =>
    rename_i hnot
    obtain ⟨others', before', after', hlength, hnext⟩ := h.afterRound hfiles
    have hnone : after' = [] := by
      rcases advances_round grammar options files state with
        hless | ⟨_, hsame⟩
      · exact absurd hless hnot
      · rw [hnext.splits.inclusions, h.splits.inclusions, List.length_append,
          List.length_append] at hsame
        exact List.length_eq_zero_iff.1 (by omega)
    rw [hnone] at hnext
    exact ⟨1, others', before', rfl, hnext⟩

end Including

/-! ### All that is included -/

/-- A source has been read with all that it includes: the main source first, the others in the order
in which inclusions stand for them. -/
structure Progress.Includes (grammar : Grammar) (options : ReadOptions) (files : FileSystem)
    (main : SourceText) (others : List SourceText) (documents : List Document)
    (result : Progress) : Prop where
  /-- Rounds are gone through as long as inclusions are left, and then there are none. -/
  ends : ∃ rounds,
    (Including.afterRounds grammar options files main rounds).progress = result ∧
    (Including.afterRounds grammar options files main rounds).pending = [] ∧
    ∀ fewer < rounds, (Including.afterRounds grammar options files main fewer).pending ≠ []
  processed : ∀ inclusion ∈ result.document.inclusions, inclusion.processed = true
  /-- Each inclusion in turn has either been refused with one error or has read its files. -/
  resolves : result.Resolves grammar options files main result.document.inclusions.length
    (main :: others)
  isMet : ∀ inclusion ∈ result.document.inclusions,
    inclusion.IsMet options files (main :: others)
  isNamed : ∀ source ∈ others, ∃ inclusion ∈ result.document.inclusions,
    source.IsNamedBy options files inclusion
  distinct : ((main :: others).map (SourceText.normal files)).Nodup
  /-- Each source has been read on its own, and its declarations are next to each other. -/
  gathers : result.Gathers grammar options.indentWidth (main :: others) documents

namespace Including

variable {grammar : Grammar} {options : ReadOptions} {files : FileSystem}

theorem round_of_pending {state : Including} (h : state.pending = []) :
    state.round grammar options files = state := by
  rw [Including.round, h, List.foldl_nil]

/-- Rounds after the first one that leaves nothing do nothing. -/
theorem exists_least_rounds {main : SourceText} {rounds : Nat}
    (h : (afterRounds grammar options files main rounds).pending = []) :
    ∃ least, afterRounds grammar options files main least =
        afterRounds grammar options files main rounds ∧
      ∀ fewer < least, (afterRounds grammar options files main fewer).pending ≠ [] := by
  have hends : ∃ count, (afterRounds grammar options files main count).pending = [] := ⟨rounds, h⟩
  refine ⟨Nat.find hends, ?_, fun fewer hfewer => Nat.find_min hends hfewer⟩
  obtain ⟨more, hmore⟩ := Nat.exists_eq_add_of_le' (Nat.find_min' hends h)
  have hfixed : round grammar options files
      (afterRounds grammar options files main (Nat.find hends)) =
        afterRounds grammar options files main (Nat.find hends) :=
    round_of_pending (Nat.find_spec hends)
  have hmorerounds : afterRounds grammar options files main rounds =
      (round grammar options files)^[more]
        (afterRounds grammar options files main (Nat.find hends)) := by
    rw [hmore]
    exact Function.iterate_add_apply _ _ _ _
  rw [hmorerounds, Function.iterate_fixed hfixed]

theorem exists_includes (grammar : Grammar) (options : ReadOptions) (hfiles : files.IsComplete)
    (main : SourceText) :
    ∃ others documents, ((start grammar options files main).resolve grammar options
      files).progress.Includes grammar options files main others documents := by
  obtain ⟨after, hstart⟩ := reaches_start grammar options files main
  obtain ⟨rounds, others, before, hrounds, hlast⟩ := hstart.atEnd hfiles
  obtain ⟨documents, hgathers⟩ := hlast.accounts.gathers
  have hresolved : afterRounds grammar options files main rounds =
      (start grammar options files main).resolve grammar options files := hrounds
  have hpending := pending_eq hlast.splits
  rw [List.length_nil, List.range'_zero, ← hresolved] at hpending
  obtain ⟨least, hleast, hfewer⟩ := exists_least_rounds hpending
  have hbefore := hlast.splits.inclusions
  rw [List.append_nil] at hbefore
  refine ⟨others, documents, ⟨least, ?_, ?_, hfewer⟩, ?_, ?_, ?_, ?_, hlast.accounts.distinct,
    hgathers⟩
  · rw [hleast, hresolved]
  · rw [hleast, hpending]
  · rw [hbefore]
    exact hlast.splits.processed
  · rw [hbefore]
    exact hlast.resolves
  · rw [hbefore]
    exact hlast.isMet
  · rw [hbefore]
    exact hlast.isNamed

end Including

/-- Whatever files are in memory and whatever they include, reading comes to an end, with every
inclusion processed and every source read once and on its own. -/
theorem MemoryFiles.exists_sources_of_readIncluding (grammar : Grammar)
    (added : List (String × String)) (file : String) (lines : List String) (extension : String)
    (width : Nat) :
    let files := (ofList added).fileSystem
    let options : ReadOptions := ⟨width, extension, true⟩
    ∃ others documents, (Progress.readIncluding grammar options files file lines).Includes grammar
      options files ⟨⟨file⟩, lines⟩ others documents :=
  Including.exists_includes grammar ⟨width, extension, true⟩ (isComplete_ofList added)
    ⟨⟨file⟩, lines⟩

/-- Two files that include each other, one of them named in two ways, and a file that is missing. -/
example :
    let files := (MemoryFiles.ofList [("lib/a.lexy", "include \"./b\"\nenum A"),
      ("lib/b.lexy", "include \"../lib/a\"\ninclude \"none\"\nenum B")]).fileSystem
    let state := Including.afterRounds .standard {} files
      ⟨⟨"main.lexy"⟩, ["enum Main", "include \"lib\""]⟩ 2
    state.pending = [] ∧ state.progress.document.names = ["Main", "A", "B"] ∧
      state.progress.log.entries.length = 1 := by
  decide +kernel

end DecisionLang
