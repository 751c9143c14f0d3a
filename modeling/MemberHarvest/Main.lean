import MemberHarvest.Command.Run
import MemberHarvest.FileTree.Changes

/-!
# Main — the command line

The command works on a tree that is read first: everything below the current directory, and
everything below the directories that the arguments name. What it changes is written back when it
has ended.
-/

namespace MemberHarvest.Console

open MemberHarvest.Path (Place)

/-- The path of a place, as the system takes it. -/
def pathOf (p : Place) : String := (Path.ofPlace p).toString

/-- A tree with the directories down to a place. -/
def openUpTo (t : FileTree) (p : Place) : FileTree :=
  (List.range p.length).foldl (fun t i =>
    let q := p.take (i + 1)
    if t.isDirectory q then t else t.put q .directory) t

/-- A tree with a file or directory of the system, and everything below it. -/
partial def readBelow (t : FileTree) (p : Place) : IO FileTree := do
  let here ← IO.FS.realPath (pathOf p)
  if (← here.isDir) then
    let mut t := openUpTo t p
    for e in (← here.readDir) do
      t ← readBelow t (p ++ [e.fileName])
    return t
  else
    try return t.put p (.file (← IO.FS.readBinFile here).toList)
    catch _ => return t

/-- The path that an argument may name. -/
def named (w : Workspace) (argument : String) : Option Place :=
  let text := ((Command.cutOption argument).2).getD argument
  match w.expandHome (.ofString text) with
  | .ok path => if path.names.isEmpty then none else some (path.placeOf w.current)
  | .error _ => none

/-- A tree with the file or directory at a place, and with its neighbours if it is a file. -/
def readAt (t : FileTree) (p : Place) : IO FileTree := do
  try
    let here ← IO.FS.realPath (pathOf p)
    if (← here.isDir) then readBelow t p
    else if (← here.pathExists) then readBelow (openUpTo t p.dropLast) p.dropLast
    else return t
  catch _ => return t

/-- The home directories in a list of accounts, one a line with its fields between colons. -/
def homesOf (accounts : String) : List (String × String) :=
  (Text.sourceLines accounts.toList).filterMap fun line =>
    match line.splitOnP (· == ':') with
    | [name, _, _, _, _, home, _] => some (String.ofList name, String.ofList home)
    | _ => none

/-- The system around the tree. It has no encodings but those that are read without it. -/
def readHost : IO Host := do
  let own? ← IO.getEnv "HOME"
  let accounts ← try IO.FS.readFile "/etc/passwd" catch _ => pure ""
  let homes := homesOf accounts
  return { home? := fun account => if account.isEmpty then own? else homes.lookup account }

/-- The workspace that a command works on. -/
def readWorkspace (arguments : List String) : IO Workspace := do
  let current := (Path.ofString (← IO.currentDir).toString).names
  let mut w : Workspace := ⟨← readBelow (openUpTo .empty current) current, current, ← readHost⟩
  for p in arguments.filterMap (named w) do
    unless current.isPrefixOf p do
      w := { w with tree := ← readAt w.tree p }
  return w

/-- Write what a command has changed. -/
def writeChanges (old new : FileTree) : IO Unit := do
  for (path, bytes?) in old.changes new [] do
    let p := (Path.ofString path).names
    match bytes? with
    | none => pure ()
    | some bytes =>
      if new.isDirectory p then IO.FS.createDirAll (pathOf p)
      else
        IO.FS.createDirAll (pathOf p.dropLast)
        IO.FS.writeBinFile (pathOf p) ⟨bytes.toArray⟩

/-- Run a command, and read a line whenever it stops at a question. What has been shown already, the
lines that were typed included, is not printed again. -/
partial def converse (w : Workspace) (arguments : List String) (input : String) (shown : Nat) :
    IO (Except Command.Stop Unit × Command.Session) := do
  let (outcome, s) := Command.run w arguments input
  IO.print (String.ofList (s.printed.toList.drop shown))
  match outcome with
  | .error .aborted =>
    (← IO.getStdout).flush
    let line ← (← IO.getStdin).getLine
    if line.isEmpty then return (outcome, s)
    else converse w arguments (input ++ line) (s.printed.length + line.length)
  | _ => return (outcome, s)

/-- What is said when a command stops early. A report has been made already. -/
def complaint : Command.Stop → String
  | .usage u => u.message
  | .aborted => "Aborted!"
  | .failure f => f.message
  | .reported _ => ""

end MemberHarvest.Console

open MemberHarvest MemberHarvest.Console in
/-- Run the command that the arguments ask for. -/
def main (arguments : List String) : IO UInt32 := do
  let w ← readWorkspace arguments
  let (outcome, s) ← converse w arguments "" 0
  writeChanges w.tree s.workspace.tree
  for e in s.shown do
    IO.eprintln e.line
  match outcome with
  | .ok () => return 0
  | .error e =>
    unless (complaint e).isEmpty do
      IO.eprintln (complaint e)
    return e.exitCode.toUInt32
