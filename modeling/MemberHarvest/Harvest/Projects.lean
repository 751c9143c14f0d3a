import MemberHarvest.Harvest.Files
import MemberHarvest.Project.Basic
import MemberHarvest.Source.Reading

/-!
# Harvest/Projects — the harvest of several projects

Each project has a catalogue of its own, so that no project sees the declarations of another one.
-/

namespace MemberHarvest.Harvest

/-- The source files of a project. -/
def files (w : Workspace) (encoding : String) (p : Project) : Except Failure (List SourceFile) :=
  Source.readAll w encoding p.sourcePaths

/-- The records of a project. -/
def harvestProject (w : Workspace) (encoding : String) (fallback : Bool) (names : List String)
    (p : Project) : Journaled (List Record) := do
  let fs ← files w encoding p
  let (catalogue, records) ← harvestFiles fallback names fs
  Journaled.report (.harvested p.name fs.length catalogue.size records.length)
  return records

/-- The records of projects, in their order. -/
def harvestProjects (w : Workspace) (encoding : String) (fallback : Bool) (names : List String)
    (ps : List Project) : Journaled (List Record) := do
  return (← ps.mapM (harvestProject w encoding fallback names)).flatten

/-- The catalogue of a project. -/
def catalogueProject (w : Workspace) (encoding : String) (names : List String) (p : Project) :
    Journaled (String × Catalogue) := do
  return (p.name, ← Catalogue.build (← files w encoding p) names)

/-- Put a value under a name: a known name keeps its place and gets the new value. -/
def insert {α : Type} (entries : List (String × α)) (name : String) (a : α) : List (String × α) :=
  if entries.any (fun e => e.1 == name) then
    entries.map fun e => if e.1 = name then (name, a) else e
  else entries ++ [(name, a)]

/-- The catalogues of projects under their names. -/
def catalogues (w : Workspace) (encoding : String) (names : List String) (ps : List Project) :
    Journaled (List (String × Catalogue)) := do
  return (← ps.mapM (catalogueProject w encoding names)).foldl (fun es e => insert es e.1 e.2) []

end MemberHarvest.Harvest
