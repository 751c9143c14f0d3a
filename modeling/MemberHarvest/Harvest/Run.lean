import MemberHarvest.Harvest.Projects
import MemberHarvest.Member.Document
import MemberHarvest.Project.Loading
import MemberHarvest.Settings.Basic
import MemberHarvest.Workspace.Saving

/-!
# Harvest/Run — a whole harvest

The records of all projects are collected before anything is written, so that a harvest which fails
on the way leaves the tree as it was.
-/

namespace MemberHarvest.Harvest

/-- The records that the settings ask for. -/
def collect (w : Workspace) (s : Settings) : Journaled (List Record) := do
  let projects ← Project.loadAll w s.ignore s.solution
  harvestProjects w s.encoding s.eofFallback s.interfaces projects

/-- Write the document that lists records. -/
def write (w : Workspace) (wrap : Bool) (records : List Record) (destination : Path) :
    Workspace × Except Failure Unit :=
  match Record.document wrap records with
  | .error e => (w, .error e)
  | .ok text =>
    let (saved, outcome) := w.save destination (Text.Utf8.encode text.toList)
    (saved, outcome.mapError (·.toFailure (.write destination)))

/-- Collect the records and write them. -/
def run (w : Workspace) (s : Settings) : Workspace × Journaled (List Record) :=
  let begin_ := Entry.scanning s.solution s.interfaces
  let collected := collect w s
  match collected.outcome with
  | .error e => (w, ⟨begin_ :: collected.journal, .error e⟩)
  | .ok records =>
    match w.expandHome (Path.ofString s.output) with
    | .error e => (w, ⟨begin_ :: collected.journal, .error e⟩)
    | .ok destination =>
      match write w s.wrapItems records destination with
      | (written, .error e) => (written, ⟨begin_ :: collected.journal, .error e⟩)
      | (written, .ok ()) =>
        (written, ⟨begin_ :: collected.journal ++ [.wrote records.length destination], .ok records⟩)

end MemberHarvest.Harvest
