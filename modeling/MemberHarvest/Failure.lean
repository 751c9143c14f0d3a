import MemberHarvest.FileTree.Refusal
import MemberHarvest.Path.Basic
import MemberHarvest.Settings.FieldError
import MemberHarvest.Text.Encoding
import MemberHarvest.Yaml.Fault

/-!
# Failure — why a harvest ends without a result

Three kinds of failure belong to the harvest itself and name a path: a solution or project that
cannot be loaded, a source file that cannot be read, and an output that cannot be written. The
others come from a value that the harvest is asked to work with.
-/

namespace MemberHarvest

/-- Why a solution or project is not loaded. -/
inductive LoadCause where
  | noProjectFile
  | noSolution
  | unsupported
  | malformed
  | refused (refusal : FileTree.Refusal)
  deriving DecidableEq, Repr

/-- Why a source file is not read. -/
inductive ReadCause where
  | undecodable
  | refused (refusal : FileTree.Refusal)
  deriving DecidableEq, Repr

/-- Why a configuration file gives no settings. -/
inductive ConfigurationCause where
  | missing (path : Path)
  | malformed (path : Path)
  | notMapping (name : String)
  | incomplete
  deriving DecidableEq, Repr

/-- Why a harvest ends without a result. -/
inductive Failure where
  | load (path : Path) (cause : LoadCause)
  | read (path : Path) (cause : ReadCause)
  | write (path : Path) (refusal : FileTree.Refusal)
  | refused (refusal : FileTree.Refusal)
  | undecodable
  | unknownEncoding (name : String)
  | noByteOrderMark
  | encoding (message : String)
  | multiByteEncoding
  | nulInEncoding
  | nulInPath
  | noHome
  | emptyGlob
  | absoluteGlob
  | mixedDoubleStar
  | wideInteger
  | unknownLevel (name : String)
  | keyNotText
  | invalid (errors : List Settings.FieldError)
  | configuration (cause : ConfigurationCause)
  | scalar (cause : Yaml.ScalarCause)
  deriving DecidableEq, Repr

/-- The wording of a load failure; the kind of text stands for what is wrong in it. -/
def LoadCause.message (path : Path) : LoadCause → String
  | .noProjectFile => s!"Project file not found: {path}"
  | .noSolution => s!"Solution path not found: {path}"
  | .unsupported => s!"Unsupported solution path: {path}"
  | .malformed => s!"Failed to parse {path}: <xml>"
  | .refused r => s!"Failed to read {path}: {r.message}"

/-- The wording of a read failure. -/
def ReadCause.message (path : Path) : ReadCause → String
  | .undecodable => s!"Failed to read {path}: <decode>"
  | .refused r => s!"Failed to read {path}: {r.message}"

/-- The wording of a complaint about a configuration file. -/
def ConfigurationCause.message : ConfigurationCause → String
  | .missing path => s!"Config file not found: {path}"
  | .malformed path => s!"Failed to parse {path}: <yaml>"
  | .notMapping name => s!"{name} must contain a mapping"
  | .incomplete => "--solution and --interfaces are required unless set in the config file"

/-- The wording of a failure; a text that cannot be decoded and invalid settings have none. -/
def Failure.message : Failure → String
  | .load path cause => cause.message path
  | .read path cause => cause.message path
  | .write path r => s!"Failed to write {path}: {r.message}"
  | .refused r => r.message
  | .undecodable => ""
  | .unknownEncoding name => s!"unknown encoding: {name}"
  | .noByteOrderMark => "UTF-16 stream does not start with BOM"
  | .encoding message => message
  | .multiByteEncoding => "multi-byte encodings are not supported"
  | .nulInEncoding => "embedded null character"
  | .nulInPath => "embedded null byte"
  | .noHome => "Could not determine home directory."
  | .emptyGlob => "Unacceptable pattern: ''"
  | .absoluteGlob => "Non-relative patterns are unsupported"
  | .mixedDoubleStar => "Invalid pattern: '**' can only be an entire path component"
  | .wideInteger => "Integer exceeds 64-bit range"
  | .unknownLevel name => s!"Unknown level: {Text.quoted name}"
  | .keyNotText => "keywords must be strings"
  | .invalid _ => ""
  | .configuration cause => "Invalid value: " ++ cause.message
  | .scalar cause => cause.message

/-- The failure that an encoding leads to, where nothing looks after it. -/
def Failure.ofEncoding (name : String) : Text.Encoding.Cause → Failure
  | .undecodable => .undecodable
  | .noMark => .noByteOrderMark
  | .unknown => .unknownEncoding name
  | .other message => .encoding message

/-- The path that a failure of the harvest itself names. -/
def Failure.path? : Failure → Option Path
  | .load path _ => some path
  | .read path _ => some path
  | .write path _ => some path
  | _ => none

/-- A failure that an encoding leads to names no path. -/
theorem Failure.path?_ofEncoding (name : String) (cause : Text.Encoding.Cause) :
    (Failure.ofEncoding name cause).path? = none := by
  cases cause <;> rfl

end MemberHarvest
