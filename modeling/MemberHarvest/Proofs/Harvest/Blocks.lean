import MemberHarvest.Harvest.Files
import MemberHarvest.Proofs.Interface.FirstDeclaration

/-!
# Proofs/Harvest/Blocks — the records of a harvest, listed without a catalogue

A file and a requested name give one `block` of records: none unless the file implements the name
and names a namespace and some file declares the name, and else one record for each member that the
first declaring file lists. The harvest of the files is these blocks, file by file and name by name
(`harvestFiles_eq_blocks`).
-/

namespace MemberHarvest.Harvest

/-- The members that the first declaring file lists for a name; nothing where no file declares
it. -/
def declaredMembers? (files : List SourceFile) (name : String) : Option (List String) :=
  (Catalogue.firstDeclaring? files name).map fun f => Declaration.memberNames f.lines

/-- The records that a file contributes for a name. -/
def block (fallback : Bool) (files : List SourceFile) (file : SourceFile) (name : String) :
    List Record :=
  if Extraction.implements file.lines name then
    match Extraction.namespaceName? file.lines, declaredMembers? files name with
    | some space, some members =>
      members.map <|
        Extraction.record fallback file name space (Extraction.className file.lines name)
    | _, _ => []
  else []

/-- The outcome of a requested name holds the name's block. -/
theorem records_outcome {names : List String} {name : String} (h : name ∈ names) (fallback : Bool)
    (files : List SourceFile) (file : SourceFile) :
    (Extraction.outcome fallback (Catalogue.ofFiles files names) file name).records =
      block fallback files file name := by
  simp only [Extraction.outcome, block, declaredMembers?, Catalogue.get?_ofFiles_of_mem h]
  split
  · cases Extraction.namespaceName? file.lines with
    | none => rfl
    | some space => cases Catalogue.firstDeclaring? files name <;> rfl
  · rfl

/-- **The records of a file are the blocks of the names, one behind the other.** A block is empty
where the file does not implement the name or names no namespace. -/
theorem records_eq_flatMap_block (fallback : Bool) (files : List SourceFile) (names : List String)
    (file : SourceFile) :
    Extraction.records fallback (Catalogue.ofFiles files names) names file =
      names.flatMap (block fallback files file) := by
  simp only [Extraction.records, Extraction.outcomes, List.flatMap_map]
  rw [List.flatMap_def, List.flatMap_def]
  exact congrArg List.flatten <| List.map_congr_left fun _ h =>
    records_outcome h fallback files file

/-- The records of some files are those of each of them in turn. -/
theorem fileRecords_eq_flatMap_block (fallback : Bool) (names : List String)
    (files : List SourceFile) :
    fileRecords fallback names files =
      files.flatMap fun file => names.flatMap (block fallback files file) := by
  rw [fileRecords, funext (records_eq_flatMap_block fallback files names)]

/-- The records of a block are for its name. -/
theorem interfaceName_of_mem_block {fallback : Bool} {files : List SourceFile}
    {file : SourceFile} {name : String} {r : Record} (h : r ∈ block fallback files file name) :
    r.interfaceName = name := by
  simp only [block] at h
  split at h
  · split at h
    · obtain ⟨member, -, rfl⟩ := List.mem_map.1 h
      rfl
    · simp at h
  · simp at h

/-- A block is empty, or the file implements the name and names a namespace and some file declares
the name. -/
theorem block_cases (fallback : Bool) (files : List SourceFile)
    (file : SourceFile) (name : String) :
    block fallback files file name = [] ∨
      ∃ space members, Extraction.implements file.lines name = true ∧
        Extraction.namespaceName? file.lines = some space ∧
          declaredMembers? files name = some members ∧
        block fallback files file name =
          members.map (Extraction.record fallback file name space
            (Extraction.className file.lines name)) := by
  rw [block]
  split
  · rename_i himplements
    cases hspace : Extraction.namespaceName? file.lines with
    | none => exact .inl rfl
    | some space =>
      cases hmembers : declaredMembers? files name with
      | none => exact .inl rfl
      | some members => exact .inr ⟨space, members, himplements, rfl, rfl, rfl⟩
  · exact .inl rfl

/-- **A harvest lists, file by file and name by name, one record for each declared member.** -/
theorem harvestFiles_eq_blocks (fallback : Bool) (names : List String) (files : List SourceFile) :
    (harvestFiles fallback names files).outcome =
      .ok (Catalogue.ofFiles files names,
        files.flatMap fun file => names.flatMap (block fallback files file)) := by
  simp only [harvestFiles, fileRecords]
  rw [funext (records_eq_flatMap_block fallback files names)]

end MemberHarvest.Harvest
