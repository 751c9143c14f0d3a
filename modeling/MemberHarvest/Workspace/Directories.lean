import MemberHarvest.Workspace

/-!
# Workspace/Directories — making directories

`makeDirectory` makes one directory in an existing one. `makeDirectories` makes the missing
directories above it too and is content with a directory that is already there; what it has made
stays when it is refused further down.
-/

namespace MemberHarvest.Workspace

/-- The place where a walk along the names starts. -/
def start (w : Workspace) (p : Path) : Path.Place := if p.isAbsolute then [] else w.current

/-- The directory that a path's last name belongs to, and that name; nothing for a path without
names or with `..` as the last one. -/
def doorway (w : Workspace) (p : Path) : Except FileTree.Cause (Option (Path.Place × String)) :=
  if FileTree.maxPath < Text.Utf8.size p.toString.toList then .error .nameTooLong
  else
    match p.names.getLast? with
    | none => .ok none
    | some n =>
      match w.tree.walk (w.start p) p.names.dropLast with
      | .error cause => .error cause
      | .ok here =>
        if !w.tree.isDirectory here then .error .notDirectory
        else if n = ".." then .ok none
        else if FileTree.isTooLong n then .error .nameTooLong
        else .ok (some (here, n))

/-- Make a directory. -/
def makeDirectory (w : Workspace) (p : Path) : Except FileTree.Cause Workspace :=
  match w.doorway p with
  | .error cause => .error cause
  | .ok none => .error .alreadyThere
  | .ok (some (here, n)) =>
    if (w.tree.find? (here ++ [n])).isSome then .error .alreadyThere
    else .ok { w with tree := w.tree.put (here ++ [n]) .directory }

/-- What is left of a refusal where a directory is wanted: nothing, if it is there. -/
def orThere (w : Workspace) (p : Path) (cause : FileTree.Cause) : Except FileTree.Refusal Unit :=
  match w.isDirectory p with
  | .ok true => .ok ()
  | _ => .error ⟨cause, p.toString, none⟩

/-- Make a directory and up to `above` missing directories above it. -/
def makeUpTo : Nat → Workspace → Path → Workspace × Except FileTree.Refusal Unit
  | 0, w, p =>
    match w.makeDirectory p with
    | .ok made => (made, .ok ())
    | .error cause => (w, w.orThere p cause)
  | above + 1, w, p =>
    match w.makeDirectory p with
    | .ok made => (made, .ok ())
    | .error .missing =>
      match makeUpTo above w p.parent with
      | (housed, .error r) => (housed, .error r)
      | (housed, .ok ()) =>
        match housed.makeDirectory p with
        | .ok made => (made, .ok ())
        | .error cause => (housed, housed.orThere p cause)
    | .error cause => (w, w.orThere p cause)

/-- Make a directory and all missing directories above it. -/
def makeDirectories (w : Workspace) (p : Path) : Workspace × Except FileTree.Refusal Unit :=
  makeUpTo p.names.length w p

end MemberHarvest.Workspace
