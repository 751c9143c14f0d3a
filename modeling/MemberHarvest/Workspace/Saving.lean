import MemberHarvest.Text.Decimal
import MemberHarvest.Workspace.Directories

/-!
# Workspace/Saving — writing a file at once

A file is written under another name beside its destination, the draft, and then takes the
destination's place. So whoever reads the destination finds all of the old content or all of the
new, and when the destination is refused, the draft goes away and only new directories stay.
-/

namespace MemberHarvest.Workspace

/-- The name of a draft; the mark tells drafts of one name apart. -/
def draftName (name mark : String) : String := "." ++ name ++ "." ++ mark ++ ".tmp"

/-- The mark of a number. -/
def draftMark (i : Nat) : String := String.ofList (Text.padded 8 i)

/-- A mark whose draft does not exist yet. -/
def freshMark (t : FileTree) (here : Path.Place) (name : String) : String :=
  let free (i : Nat) := (t.find? (here ++ [draftName name (draftMark i)])).isNone
  draftMark (((List.range (t.nodes.length + 1)).find? free).getD 0)

/-- A draft's path from the root; messages leave its mark open. -/
def draftPath (parent : Path) (here : Path.Place) (name mark : String) : String :=
  let anchor := if parent.anchor = .network then Path.Anchor.network else .root
  (Path.mk anchor (here ++ [draftName name mark])).toString

/-- Move a draft onto the destination. -/
def promote (w : Workspace) (draft : Path.Place) (bytes : Text.Bytes) (p : Path) :
    Except FileTree.Cause Workspace :=
  match w.doorway p with
  | .error cause => .error cause
  | .ok none => .error .busy
  | .ok (some (here, n)) =>
    if w.tree.isDirectory (here ++ [n]) then .error .isDirectory
    else .ok { w with tree := (w.tree.remove draft).put (here ++ [n]) (.file bytes) }

/-- Write a file whose directory exists. -/
def saveIn (w : Workspace) (here : Path.Place) (p : Path) (bytes : Text.Bytes) :
    Workspace × Except Obstacle Unit :=
  let mark := freshMark w.tree here p.name
  let path := draftPath p.parent here p.name "<rand>"
  let name := draftName p.name mark
  if FileTree.isTooLong name ||
      FileTree.maxPath < Text.Utf8.size (draftPath p.parent here p.name mark).toList then
    (w, .error (.refused ⟨.nameTooLong, path, none⟩))
  else
    let draft := here ++ [name]
    let drafted := { w with tree := w.tree.put draft (.file bytes) }
    match drafted.promote draft bytes p with
    | .ok saved => (saved, .ok ())
    | .error cause =>
      ({ drafted with tree := drafted.tree.remove draft },
        .error (.refused ⟨cause, path, some p.toString⟩))

/-- **Write a file,** making the directories above it. -/
def save (w : Workspace) (p : Path) (bytes : Text.Bytes) : Workspace × Except Obstacle Unit :=
  if p.parent.holdsNul then (w, .error .nul)
  else
    match w.makeDirectories p.parent with
    | (housed, .error r) => (housed, .error (.refused r))
    | (housed, .ok ()) =>
      if p.holdsNul then (housed, .error .nul)
      else
        match housed.locate p.parent with
        | .ok here => housed.saveIn here p bytes
        | .error cause => (housed, .error (.refused ⟨cause, p.parent.toString, none⟩))

end MemberHarvest.Workspace
