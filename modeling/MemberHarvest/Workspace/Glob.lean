import MemberHarvest.Path.Pattern
import MemberHarvest.Workspace

/-!
# Workspace/Glob — the files that a pattern with directories finds

A glob goes from a directory step by step: `**` as a whole step stands for the directory and every
directory below it, a step with a wildcard for the names that fit it, and any other step for itself.
A slash at the end asks for directories. The paths are found as they are written, so that a `..` in
the glob stays in them, and one that is too long ends the search, where a directory is looked into
as where a file is looked at.
-/

namespace MemberHarvest

/-- A step of a glob. -/
inductive Glob.Step where
  | everywhere
  | wild (pattern : Pattern)
  | plain (name : String)
  deriving DecidableEq, Repr

/-- A glob: its steps, and whether it asks for directories. -/
structure Glob where
  steps : List Glob.Step
  directoriesOnly : Bool
  deriving DecidableEq, Repr

namespace Glob

/-- Whether a step has wildcards. -/
def isWild (name : String) : Bool := name.toList.any fun c => c == '*' || c == '?' || c == '['

/-- The step of a name. Two stars mean directories only as a whole step. -/
def Step.ofName (name : String) : Except Failure Step :=
  if name = "**" then .ok .everywhere
  else if Text.occurs ['*', '*'] name.toList then .error .mixedDoubleStar
  else if isWild name then .ok (.wild (.ofString name)) else .ok (.plain name)

/-- The glob that a text denotes. -/
def ofString (s : String) : Except Failure Glob := do
  let p := Path.ofString s
  if s.isEmpty then throw .emptyGlob
  if p.isAbsolute then throw .absoluteGlob
  return ⟨← p.names.mapM Step.ofName, s.toList.getLast? == some '/'⟩

end Glob

namespace Workspace

/-- Look for what lies in a directory; a path that is too long is refused. -/
def enter (w : Workspace) (p : Path) : Except Failure Unit :=
  match w.locate p with
  | .error .nameTooLong => .error (.refused ⟨.nameTooLong, p.toString, none⟩)
  | _ => .ok ()

/-- The directories at a path and below it. -/
def directoriesFrom (w : Workspace) (p : Path) : List Path :=
  let base := p.placeOf w.current
  (w.tree.directoriesFrom base).map fun d => ⟨p.anchor, p.names ++ d.drop base.length⟩

/-- The names in a directory that fit a pattern. -/
def namesIn (w : Workspace) (p : Path) (pattern : Pattern) : List String :=
  (w.tree.names (p.placeOf w.current)).filter fun n => pattern.fits n.toList

/-- The files that steps find from a directory. Every step but the last one goes through
directories. -/
def follow (w : Workspace) (directoriesOnly : Bool) :
    List Glob.Step → Path → Except Failure (List Path)
  | [], p => do if ← w.isFile p then return [p] else return []
  | s :: rest, p => do
    let inner := directoriesOnly || !rest.isEmpty
    match s with
    | .everywhere =>
      List.flatten <$> (w.directoriesFrom p).mapM fun q => do
        let found ← follow w directoriesOnly rest q
        w.enter q
        return found
    | .wild pattern =>
      w.enter p
      let found := (w.namesIn p pattern).map p.child
      let next :=
        if inner then found.filter (fun q => w.tree.isDirectory (q.placeOf w.current)) else found
      List.flatten <$> next.mapM (follow w directoriesOnly rest)
    | .plain name =>
      let q := p.child name
      if ← (if inner then w.isDirectory q else w.exists? q) then follow w directoriesOnly rest q
      else return []

/-- The files that a glob finds from a directory, each once. -/
def glob (w : Workspace) (base : Path) (pattern : String) : Except Failure (List Path) := do
  let g ← Glob.ofString pattern
  if ← w.isDirectory base then return (← w.follow g.directoriesOnly g.steps base).eraseDups
  else return []

end Workspace
end MemberHarvest
