import MemberHarvest.SourceFile
import MemberHarvest.Text.Lines
import MemberHarvest.Workspace

/-!
# Source/Reading — source files of a workspace

A file is opened before its encoding is looked up, and its text is cut at `\r\n`, `\r` and `\n`
only. Several files are read in the order of their paths; the first failure ends the reading.
Workers that read at the same time give the same answer (`Source/Pool`), so that their number does
not matter here.
-/

namespace MemberHarvest.Source

/-- What it means for a file that its bytes are not read as text. -/
def failureOf (path : Path) (encoding : String) : Text.Encoding.Cause → Failure
  | .undecodable => .read path .undecodable
  | cause => .ofEncoding encoding cause

/-- The lines of bytes. -/
def lines (codecs : Text.Codecs) (encoding : String) (bytes : Text.Bytes) :
    Except Text.Encoding.Cause (List String) :=
  (codecs.decode encoding bytes).map fun cs => (Text.sourceLines cs).map String.ofList

/-- The source file that a path names. -/
def read (w : Workspace) (encoding : String) (path : Path) : Except Failure SourceFile :=
  if encoding.toList.contains '\x00' then .error .nulInEncoding
  else do
    let bytes ← (w.readBytes path).mapError (·.toFailure (.read path ∘ .refused))
    let lines ← (lines w.host.codecs encoding bytes).mapError (failureOf path encoding)
    return ⟨path, lines⟩

/-- The source files that paths name, in their order. -/
def readAll (w : Workspace) (encoding : String) (paths : List Path) :
    Except Failure (List SourceFile) :=
  paths.mapM (read w encoding)

end MemberHarvest.Source
