import MemberHarvest.Failure
import MemberHarvest.FileTree.Walk
import MemberHarvest.Host

/-!
# Workspace — a tree seen from a current directory

Paths mean something only from a place: relative ones start at the current directory, and `~` stands
for a home directory, which the system around the tree tells.
-/

namespace MemberHarvest

open MemberHarvest.Path (Place)

/-- A tree, the current directory and the system around them. -/
structure Workspace where
  tree : FileTree
  current : Place
  host : Host := {}

/-- Why a file is not opened. -/
inductive Workspace.Obstacle where
  | nul
  | refused (refusal : FileTree.Refusal)
  deriving DecidableEq, Repr

namespace Workspace

/-- The failure that an obstacle leads to, where `wrap` says what a refusal leads to. -/
def Obstacle.toFailure (wrap : FileTree.Refusal → Failure) : Obstacle → Failure
  | .nul => .nulInPath
  | .refused r => wrap r

/-- The place of the node that a path names. -/
def locate (w : Workspace) (p : Path) : Except FileTree.Cause Place := w.tree.locate w.current p

/-- The absolute path without `..` that names the same place. -/
def resolve (w : Workspace) (p : Path) : Path := p.resolve w.current

/-- Whether the node that a path names has a property. A path without a node has none; a name too
long to look up is refused. -/
def probe (w : Workspace) (test : Place → Bool) (p : Path) : Except Failure Bool :=
  if p.holdsNul then .ok false
  else
    match w.locate p with
    | .ok place => .ok (test place)
    | .error .nameTooLong => .error (.refused ⟨.nameTooLong, p.toString, none⟩)
    | .error _ => .ok false

/-- Whether a path names a file. -/
def isFile (w : Workspace) (p : Path) : Except Failure Bool := w.probe w.tree.isFile p

/-- Whether a path names a directory. -/
def isDirectory (w : Workspace) (p : Path) : Except Failure Bool := w.probe w.tree.isDirectory p

/-- Whether a path names a node. -/
def exists? (w : Workspace) (p : Path) : Except Failure Bool := w.probe (fun _ => true) p

/-- The bytes of the file that a path names. -/
def readBytes (w : Workspace) (p : Path) : Except Obstacle Text.Bytes :=
  if p.holdsNul then .error .nul
  else
    match w.locate p with
    | .error cause => .error (.refused ⟨cause, p.toString, none⟩)
    | .ok place =>
      match w.tree.find? place with
      | some (.file bytes) => .ok bytes
      | some .directory => .error (.refused ⟨.isDirectory, p.toString, none⟩)
      | none => .error (.refused ⟨.missing, p.toString, none⟩)

/-- Only a NUL in the path itself is in the way of its end. -/
theorem readBytes_ne_nul {p : Path} (h : p.holdsNul = false) (w : Workspace) :
    w.readBytes p ≠ .error .nul := by
  simp only [readBytes, h, Bool.false_eq_true, if_false]
  split
  · simp
  · split <;> simp

/-- The path with a home directory in place of a `~` in front. -/
def expandHome (w : Workspace) (p : Path) : Except Failure Path :=
  match p.account? with
  | none => .ok p
  | some account =>
    if account.toList.contains '\x00' then .error .nulInPath
    else
      match w.host.homeOf? account with
      | some home => .ok ⟨home.anchor, home.names ++ p.names.tail⟩
      | none => .error .noHome

end Workspace
end MemberHarvest
