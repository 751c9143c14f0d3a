import MemberHarvest.Settings.Layers
import MemberHarvest.Workspace
import MemberHarvest.Yaml.Document

/-!
# Settings/Configuration — the settings that a file gives

A file may be named; the one in the current directory is used if it is there. It holds a mapping, or
nothing.
-/

namespace MemberHarvest.Settings.Configuration

/-- The name of the file in the current directory. -/
def defaultName : String := "implscan.yaml"

/-- The failure that what stops the reading of a file leads to. -/
def failureOf (path : Path) : Yaml.Halt → Failure
  | .undecodable => .undecodable
  | .fault .form => .configuration (.malformed path)
  | .fault (.scalar cause) => .scalar cause

/-- The entries of a value, which may be a mapping or nothing. -/
def entriesOf (path : Path) (v : Value) : Except Failure Entries :=
  match v with
  | .mapping entries => .ok entries
  | v => if v.isHollow then .ok [] else .error (.configuration (.notMapping path.name))

/-- The entries of the file that a path names. -/
def read (w : Workspace) (path : Path) : Except Failure Entries := do
  if (← w.exists? path) then
    let bytes ← (w.readBytes path).mapError (·.toFailure .refused)
    entriesOf path (← (Yaml.load bytes).mapError (failureOf path))
  else .error (.configuration (.missing path))

/-- The entries of the file that is named, or else of the one in the current directory, if there is
one. -/
def load (w : Workspace) (path? : Option Path) : Except Failure Entries := do
  match path? with
  | some path => read w path
  | none =>
    let path := w.resolve (.ofString defaultName)
    if (← w.exists? path) then read w path else return []

end MemberHarvest.Settings.Configuration
