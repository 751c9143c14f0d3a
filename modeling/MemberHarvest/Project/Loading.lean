import MemberHarvest.Journal
import MemberHarvest.Project.Basic
import MemberHarvest.Project.Compile
import MemberHarvest.Project.SolutionLine

/-!
# Project/Loading — from a path to projects

A path names a solution, a project file or a directory. A directory stands for the project files
below it, in the order of their paths; without any it is a project itself, with every source file
below it.
-/

namespace MemberHarvest.Project

/-! ## One project -/

/-- Whether the patterns leave a file of a project in `base` out. -/
def isLeftOut (base : Path) (ignore : List String) (p : Path) : Bool :=
  Ignore.isIgnored ignore (base.relativeText p)

/-- A file as an entry of a project. -/
def entry (p : Path) : Entry := ⟨p.toString, p.hasSuffix regularSuffix⟩

/-- The entries of the files that no pattern leaves out. -/
def entriesOf (base : Path) (ignore : List String) (files : List Path) : List Entry :=
  (files.filter fun p => !isLeftOut base ignore p).map entry

/-- The reports about the files that are left out. -/
def ignoring (base : Path) (ignore : List String) (files : List Path) : List MemberHarvest.Entry :=
  (files.filter (isLeftOut base ignore)).map .ignoring

/-- The name of a project: the one that is given, or else the name of its file. -/
def nameOf (name? : Option String) (path : Path) : String :=
  match name? with
  | some n => if n.isEmpty then path.stem else n
  | none => path.stem

/-- Load a project file. -/
def load (w : Workspace) (ignore : List String) (name? : Option String) (path : Path) :
    Journaled Project := do
  if ← w.isFile path then
    let path := w.resolve path
    let files ← selected w path.parent (← readElements w path)
    let project : Project := ⟨nameOf name? path, path, entriesOf path.parent ignore files⟩
    Journaled.reports (ignoring path.parent ignore files)
    Journaled.report (.loaded project.name project.entries.length)
    return project
  else Journaled.fail (.load path .noProjectFile)

/-! ## Several projects -/

/-- The projects that a solution lists: their names and the paths of their files. -/
def listed (w : Workspace) (path : Path) : Except Failure (List (String × Path)) := do
  let bytes ← (w.readBytes path).mapError (·.toFailure (.load path ∘ .refused))
  let text ← (Text.Encoding.utf8Marked.decode bytes).mapError fun _ => .undecodable
  let lines := (Text.displayLines text).filterMap SolutionLine.parse?
  let projects := lines.filter fun l => ".csproj".toList.isSuffixOf (l.2.map Char.toLower)
  projects.mapM fun (name, raw) => do
    return (String.ofList name, ← locate w.current path.parent (String.ofList raw))

/-- The project files below a directory, outside output directories, in order. -/
def projectFiles (w : Workspace) (base : Path) : Except Failure (List Path) := do
  let found ← w.glob base "**/*.csproj"
  return Path.sort ((found.filter fun p => !isBuildOutput base p).map w.resolve)

/-- Load a directory. -/
def loadDirectory (w : Workspace) (ignore : List String) (base : Path) :
    Journaled (List Project) := do
  match ← projectFiles w base with
  | [] =>
    let base := w.resolve base
    let files ← globSources w base everything
    Journaled.reports (ignoring base ignore files)
    return [⟨base.name, base, entriesOf base ignore files⟩]
  | files => files.mapM (load w ignore none)

/-- Load what an existing path names. -/
def loadNode (w : Workspace) (ignore : List String) (path : Path) : Journaled (List Project) := do
  if ← w.isDirectory path then loadDirectory w ignore path
  else if ← w.isFile path then
    if path.hasSuffix ".sln" then
      (← listed w path).mapM fun (name, file) => load w ignore (some name) file
    else if path.hasSuffix ".csproj" then return [← load w ignore none path]
    else Journaled.fail (.load path .unsupported)
  else Journaled.fail (.load path .noSolution)

/-- **Load the projects behind a path.** -/
def loadAll (w : Workspace) (ignore : List String) (path : String) : Journaled (List Project) := do
  let path ← w.expandHome (Path.ofString path)
  let projects ← loadNode w ignore path
  if projects.isEmpty then Journaled.report (.noProjects path)
  return projects

end MemberHarvest.Project
