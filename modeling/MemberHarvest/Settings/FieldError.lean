/-!
# Settings/FieldError — what is wrong with a field of the settings
-/

namespace MemberHarvest

/-- The fields of the settings. -/
inductive Settings.Field where
  | solution
  | output
  | interfaces
  | ignore
  | encoding
  | eofFallback
  | wrapItems
  | maxWorkers
  | logLevel
  deriving DecidableEq, Repr

namespace Settings

/-- The key under which a field is given. -/
def Field.key : Field → String
  | .solution => "solution"
  | .output => "output"
  | .interfaces => "interfaces"
  | .ignore => "ignore"
  | .encoding => "encoding"
  | .eofFallback => "eof_fallback"
  | .wrapItems => "wrap_items"
  | .maxWorkers => "max_workers"
  | .logLevel => "log_level"

/-- A second key under which a field may be given. -/
def Field.alias? : Field → Option String
  | .solution => some "solution_file"
  | .interfaces => some "inspect_interfaces"
  | _ => none

/-- What can be wrong with the value of a field. -/
inductive Complaint where
  | missing
  | notText
  | notUnicode
  | notList
  | notTruth
  | unclearTruth
  | notInteger
  | unclearInteger
  | fraction
  | notFinite
  | tooWide
  | tooSmall
  deriving DecidableEq, Repr

/-- A complaint about a field, or about the element of a list field at an index. -/
structure FieldError where
  field : Field
  index : Option Nat := none
  complaint : Complaint
  deriving DecidableEq, Repr

end Settings
end MemberHarvest
