import DecisionLang.Files.MemoryFiles
import DecisionLang.Proofs.Files.SourcePath

/-!
# Files in memory are found under their normal forms

A file system is complete if all files that are found in it are listed and can be read. Files in
memory are kept under normalized paths, which are found under themselves. Main statement:
`MemoryFiles.isComplete_ofList`.
-/

namespace DecisionLang

/-- Every file that is found is one of the files and can be read. -/
structure FileSystem.IsComplete (files : FileSystem) : Prop where
  listed : ∀ path, files.isFile path = true → files.normal path ∈ files.files
  readable : ∀ path, files.isFile path = true → ∃ lines, files.readLines path = .ok lines
  inside : ∀ directory extension found, files.filesIn? directory extension = some found →
    ∀ file ∈ found, files.isFile file = true

namespace MemoryFiles

variable {memory : MemoryFiles} {path : SourcePath} {content : String}

def IsNormal (memory : MemoryFiles) : Prop :=
  ∀ file ∈ memory.files, file.1.normalized = file.1

theorem eq_or_mem_of_mem_insert {files : List (SourcePath × String)} {file : SourcePath × String}
    (h : file ∈ insert path content files) : file = (path, content) ∨ file ∈ files := by
  induction files with
  | nil => exact .inl (List.mem_singleton.1 h)
  | cons first files ih =>
    unfold insert at h
    split at h
    · exact List.mem_cons.1 h
    · exact (List.mem_cons.1 h).imp id fun hmem => .tail _ hmem
    · rcases List.mem_cons.1 h with rfl | hmem
      · exact .inr List.mem_cons_self
      · exact (ih hmem).imp id fun hold => .tail _ hold

theorem IsNormal.add (h : memory.IsNormal) (path : SourcePath) (content : String) :
    (memory.add path content).IsNormal := by
  intro file hfile
  rcases eq_or_mem_of_mem_insert hfile with rfl | hold
  · exact path.normalized_normalized
  · exact h file hold

theorem isNormal_ofList (files : List (String × String)) : (ofList files).IsNormal := by
  unfold ofList
  generalize hempty : ({} : MemoryFiles) = memory
  have hmemory : memory.IsNormal := by
    rw [← hempty]
    exact List.forall_mem_nil _
  clear hempty
  induction files generalizing memory with
  | nil => exact hmemory
  | cons file files ih => exact ih _ (hmemory.add ⟨file.1⟩ file.2)

theorem content?_isSome_iff :
    (memory.content? path).isSome = true ↔ path.normalized ∈ memory.files.map Prod.fst := by
  simp [content?, List.mem_map]

theorem isComplete_fileSystem (h : memory.IsNormal) : memory.fileSystem.IsComplete where
  listed path hpath := content?_isSome_iff.1 hpath
  readable path hpath := by
    obtain ⟨content, hcontent⟩ := Option.isSome_iff_exists.1 hpath
    refine ⟨Text.lines content, ?_⟩
    change memory.readLines path = _
    rw [readLines, hcontent]
  inside directory extension found hfound file hfile := by
    cases hfound
    obtain ⟨hmem, _⟩ := List.mem_filter.1 hfile
    obtain ⟨entry, hentry, rfl⟩ := List.mem_map.1 hmem
    refine content?_isSome_iff.2 ?_
    rw [h entry hentry]
    exact hmem

theorem isComplete_ofList (files : List (String × String)) :
    (ofList files).fileSystem.IsComplete :=
  isComplete_fileSystem (isNormal_ofList files)

end MemoryFiles

end DecisionLang
