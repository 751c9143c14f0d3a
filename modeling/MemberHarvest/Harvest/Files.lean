import MemberHarvest.Member.Extraction

/-!
# Harvest/Files — the harvest of one project's files

All files are catalogued before any of them is searched for members, so that a declaration may stand
in a later file than its implementation.
-/

namespace MemberHarvest.Harvest

/-- The records of the files: file by file, name by name, member by member. -/
def fileRecords (fallback : Bool) (names : List String) (files : List SourceFile) : List Record :=
  files.flatMap (Extraction.records fallback (Catalogue.ofFiles files names) names)

/-- The reports about the files: first those about declarations. -/
def fileEntries (fallback : Bool) (names : List String) (files : List SourceFile) : List Entry :=
  Catalogue.entries files names ++
    files.flatMap (Extraction.entries fallback (Catalogue.ofFiles files names) names)

/-- The catalogue and the records of the files, together with the reports. -/
def harvestFiles (fallback : Bool) (names : List String) (files : List SourceFile) :
    Journaled (Catalogue × List Record) :=
  ⟨fileEntries fallback names files,
    .ok (Catalogue.ofFiles files names, fileRecords fallback names files)⟩

end MemberHarvest.Harvest
