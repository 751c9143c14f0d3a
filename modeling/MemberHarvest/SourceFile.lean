import MemberHarvest.Path.Basic

/-!
# SourceFile — the lines of one file
-/

namespace MemberHarvest

/-- A source file: its path and its lines, without their ends. -/
structure SourceFile where
  path : Path
  lines : List String
  deriving DecidableEq, Repr

end MemberHarvest
