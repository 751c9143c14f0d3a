import MemberHarvest.Path.Ignore
import MemberHarvest.Project.Items
import MemberHarvest.Workspace.Glob
import MemberHarvest.Xml.Document

/-!
# Project/Compile — the files that a project file selects

A project file in the modern style selects every source file below its directory to begin with. Its
`Compile` elements include further files, as paths or globs, and remove some: what any of them
removes is left out at the end, wherever it is included.
-/

namespace MemberHarvest.Project

/-- The extension of regular source files. -/
def regularSuffix : String := ".cs"

/-- The extension of scripts. -/
def scriptSuffix : String := ".csx"

/-- Whether a path has the extension of a source file. -/
def isSource (p : Path) : Bool := p.hasSuffix regularSuffix || p.hasSuffix scriptSuffix

/-- The source files that a glob finds below a directory, outside output directories, in order. -/
def globSources (w : Workspace) (base : Path) (pattern : String) : Except Failure (List Path) := do
  let sources := (← w.glob base pattern).filter fun p => isSource p && !isBuildOutput base p
  return Path.sort (sources.map w.resolve)

/-- The glob for everything below a directory. -/
def everything : String := "**/*"

/-- The files that an item includes. -/
def expand (w : Workspace) (base : Path) (item : String) : Except Failure (List Path) :=
  if item.toList.any (fun c => c == '*' || c == '?') then
    globSources w base (String.ofList (Path.slashes item.toList))
  else (locate w.current base item).map fun p => [p]

/-! ## Reading the elements -/

/-- Whether an element names the kit that a project is built with. -/
def namesKit (e : Xml.Element) : Bool :=
  e.name.base == "Sdk" || !((e.attribute? "Sdk").getD "").isEmpty

/-- The elements that select files. -/
def compileElements (es : List Xml.Element) : List Xml.Element :=
  es.filter fun e => e.name.base == "Compile"

/-- The items that elements include. -/
def included (es : List Xml.Element) : List String :=
  (compileElements es).flatMap fun e => splitItems (e.attribute? "Include")

/-- The items that elements remove. -/
def removed (es : List Xml.Element) : List String :=
  (compileElements es).flatMap fun e => splitItems (e.attribute? "Remove")

/-- The files that the elements of a project file in `base` select, each once. -/
def selected (w : Workspace) (base : Path) (es : List Xml.Element) :
    Except Failure (List Path) := do
  let first ← if es.any namesKit then globSources w base everything else pure []
  let more ← (included es).mapM (expand w base)
  return (first ++ more.flatten).eraseDups.filter fun p =>
    !Ignore.isIgnored (removed es) (base.relativeText p)

/-- What a document that cannot be read means for a project. -/
def failureOf (path : Path) : Xml.Cause → Failure
  | .malformed => .load path .malformed
  | .encoding name cause => .ofEncoding name cause
  | .multiByteEncoding => .multiByteEncoding

/-- The elements of a project file. -/
def readElements (w : Workspace) (path : Path) : Except Failure (List Xml.Element) := do
  let bytes ← (w.readBytes path).mapError (·.toFailure (.load path ∘ .refused))
  (Xml.elements w.host.codecs bytes).mapError (failureOf path)

end MemberHarvest.Project
