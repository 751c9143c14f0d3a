import MemberHarvest.Settings.FieldError
import MemberHarvest.Settings.Value
import MemberHarvest.Text.Blank

/-!
# Settings/Basic — the settings of a harvest
-/

namespace MemberHarvest

/-- The settings of a harvest. -/
structure Settings where
  solution : String
  output : String
  interfaces : List String
  ignore : List String
  encoding : String
  eofFallback : Bool
  wrapItems : Bool
  maxWorkers : Nat
  logLevel : String
  deriving DecidableEq, Repr

namespace Settings

/-- The names that a list with commas between them holds. -/
def splitNames (s : String) : List String := (Text.trimmedPieces ',' s.toList).map String.ofList

/-- The texts, trimmed, without those that are blank. -/
def trimNames (names : List String) : List String :=
  (names.map fun n => String.ofList (Text.trim n.toList)).filter (fun n => !n.isEmpty)

end Settings
end MemberHarvest
