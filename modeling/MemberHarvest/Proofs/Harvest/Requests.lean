import MemberHarvest.Proofs.Harvest.Blocks

/-!
# Proofs/Harvest/Requests — requested names do not interfere

A block of records belongs to one name and says nothing about what else is requested. So keeping the
records of some names comes to the same as requesting these names only (`filter_fileRecords`), and
for a single name it has no say in which order the names are requested (`harvestFiles_oneName`).
Names that are beginnings of one another are no exception, although they are looked for in the same
lines.
-/

namespace MemberHarvest.Harvest

variable {fallback : Bool} {files : List SourceFile} {file : SourceFile}

/-! ## Some of the names -/

/-- Keeping the records of some names keeps a block or leaves it out. -/
theorem filter_block (keep : String → Bool) (name : String) :
    (block fallback files file name).filter (fun r => keep r.interfaceName) =
      if keep name then block fallback files file name else [] := by
  split
  · rename_i h
    refine List.filter_eq_self.2 fun r hr => ?_
    rw [interfaceName_of_mem_block hr, h]
  · rename_i h
    refine List.filter_eq_nil_iff.2 fun r hr => ?_
    rwa [interfaceName_of_mem_block hr]

/-- Leaving out names or leaving out their records comes to the same. -/
theorem filter_flatMap_block (keep : String → Bool) (names : List String) :
    (names.flatMap (block fallback files file)).filter (fun r => keep r.interfaceName) =
      (names.filter keep).flatMap (block fallback files file) := by
  induction names with
  | nil => rfl
  | cons n ns ih =>
    rw [List.flatMap_cons, List.filter_append, filter_block, ih, List.filter_cons]
    split
    · rw [List.flatMap_cons]
    · rw [List.nil_append]

/-- **Keeping the records of some names comes to the same as requesting only these.** A name brings
in no records under another name. -/
theorem filter_fileRecords (keep : String → Bool) (names : List String) :
    (fileRecords fallback names files).filter (fun r => keep r.interfaceName) =
      fileRecords fallback (names.filter keep) files := by
  rw [fileRecords_eq_flatMap_block, fileRecords_eq_flatMap_block, List.filter_flatMap]
  exact congrArg files.flatMap (funext fun file => filter_flatMap_block keep names)

/-! ## One name -/

/-- The records of one interface. -/
def recordsOf (name : String) (records : List Record) : List Record :=
  records.filter fun r => r.interfaceName == name

/-- **The records of a name among those of several are the ones of this name alone.** A name that is
requested several times has its records as often. -/
theorem recordsOf_fileRecords (name : String) (names : List String) :
    recordsOf name (fileRecords fallback names files) =
      fileRecords fallback (names.filter (· == name)) files :=
  filter_fileRecords (· == name) names

/-- What the catalogue says about a name depends on the name's being requested, and on no other
name. -/
theorem get?_ofFiles_filter (files : List SourceFile) (names : List String) (name : String) :
    (Catalogue.ofFiles files (names.filter (· == name))).get? name =
      (Catalogue.ofFiles files names).get? name := by
  simp only [Catalogue.get?_ofFiles, List.mem_filter, beq_self_eq_true, and_true]

/-- In every order of the names, one of them is requested equally often. -/
theorem filter_beq_eq_of_perm {names names' : List String} (h : names'.Perm names) (name : String) :
    names'.filter (· == name) = names.filter (· == name) := by
  rw [List.filter_beq, List.filter_beq, h.count_eq]

/-- **Requested names do not interfere.** The records of a name among those of all names, and its
declaration, are those of a harvest for this name alone; and so they are the same in whichever order
the names are requested. -/
theorem harvestFiles_oneName (fallback : Bool) (names : List String)
    (files : List SourceFile) (name : String) :
    ∃ catalogue records catalogue₁ records₁,
      (harvestFiles fallback names files).outcome = .ok (catalogue, records) ∧
        (harvestFiles fallback (names.filter (· == name)) files).outcome =
          .ok (catalogue₁, records₁) ∧
        recordsOf name records = records₁ ∧ catalogue.get? name = catalogue₁.get? name ∧
        ∀ names', names'.Perm names → ∃ catalogue' records',
          (harvestFiles fallback names' files).outcome = .ok (catalogue', records') ∧
            recordsOf name records' = recordsOf name records ∧
              catalogue'.get? name = catalogue.get? name := by
  refine ⟨_, _, _, _, rfl, rfl, recordsOf_fileRecords name names,
    (get?_ofFiles_filter files names name).symm, fun names' hperm => ⟨_, _, rfl, ?_, ?_⟩⟩
  · rw [recordsOf_fileRecords, recordsOf_fileRecords, filter_beq_eq_of_perm hperm]
  · rw [← get?_ofFiles_filter files names', filter_beq_eq_of_perm hperm, get?_ofFiles_filter]

end MemberHarvest.Harvest
