import MemberHarvest.Failure
import MemberHarvest.Path.Resolve

/-!
# Project/Items — how a project names its files

The files of a project are listed in texts with semicolons between the items. Whatever lies in a
directory `bin` or `obj` below the project is output of a build and does not count.
-/

namespace MemberHarvest.Project

/-- The items of a text, trimmed, without the blank ones. -/
def splitItems (value? : Option String) : List String :=
  match value? with
  | none => []
  | some s => (Text.trimmedPieces ';' s.toList).map String.ofList

/-- The directories that hold the output of a build. -/
def outputDirectories : List String := ["bin", "obj"]

/-- Whether the path goes through an output directory below `base`. -/
def isBuildOutput (base p : Path) : Bool :=
  match p.below? base with
  | none => false
  | some rest => rest.names.dropLast.any fun n => outputDirectories.contains (Path.lowerAscii n)

/-- The place that a project text names; no path may hold a NUL character. -/
def locate (cwd : Path.Place) (base : Path) (raw : String) : Except Failure Path :=
  if (base.join (Path.ofProjectText raw)).holdsNul then .error .nulInPath
  else .ok (base.resolveRelative cwd raw)

end MemberHarvest.Project
