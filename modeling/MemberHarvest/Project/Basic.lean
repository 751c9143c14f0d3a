import MemberHarvest.Path.Basic

/-!
# Project/Basic — a project and its files
-/

namespace MemberHarvest

/-- A file of a project; regular ones are searched for members. -/
structure Project.Entry where
  filePath : String
  isRegular : Bool
  deriving DecidableEq, Repr

/-- A project: its name, its path, and its files in their order. -/
structure Project where
  name : String
  path : Path
  entries : List Project.Entry
  deriving DecidableEq, Repr

/-- The paths of the regular files, the empty ones left out. -/
def Project.sourcePaths (p : Project) : List Path :=
  (p.entries.filter fun e => e.isRegular && !e.filePath.isEmpty).map fun e =>
    Path.ofString e.filePath

end MemberHarvest
