import MemberHarvest.Proofs.Outcome
import MemberHarvest.Proofs.Path.Trail
import MemberHarvest.Settings.Reading
import MemberHarvest.Source.Reading

/-!
# Proofs/Source/Reading — what is read from a path

A path `Holds` a source file where it leads to bytes that decode, in the encoding that is used where
none is given. Reading gives that file (`read_eq_ok_iff`), and a path without one is a failure that
names it (`read_of_not_readable`).
-/

namespace MemberHarvest.Source

variable {w : Workspace} {path : Path} {file : SourceFile}

/-- A path leads to bytes that stand for the lines of a source file. -/
def Holds (w : Workspace) (path : Path) (file : SourceFile) : Prop :=
  ∃ bytes text, w.readBytes path = .ok bytes ∧ Text.Encoding.utf8Marked.decode bytes = .ok text ∧
    file = ⟨path, (Text.sourceLines text).map String.ofList⟩

/-- A path leads to bytes that decode. -/
def Readable (w : Workspace) (path : Path) : Prop := ∃ file, Holds w path file

/-- The default encoding is the same for every registry. -/
theorem decode_defaultEncoding (codecs : Text.Codecs) (bytes : Text.Bytes) :
    codecs.decode Settings.defaultEncoding bytes = Text.Encoding.utf8Marked.decode bytes := by
  have hname : Text.Encoding.ofName? Settings.defaultEncoding = some .utf8Marked := by decide
  rw [Text.Codecs.decode, hname]

/-- Reading with the default encoding fails as the file system or the decoder does. -/
theorem read_defaultEncoding (w : Workspace) (path : Path) :
    read w Settings.defaultEncoding path =
      match w.readBytes path with
      | .error o => .error (o.toFailure (.read path ∘ .refused))
      | .ok bytes =>
        match Text.Encoding.utf8Marked.decode bytes with
        | .error cause => .error (failureOf path Settings.defaultEncoding cause)
        | .ok text => .ok ⟨path, (Text.sourceLines text).map String.ofList⟩ := by
  have hname : Settings.defaultEncoding.toList.contains '\x00' = false := by decide
  rw [read, hname]
  cases w.readBytes path with
  | error o => rfl
  | ok bytes =>
    simp only [Bool.false_eq_true, if_false, Except.mapError, lines, decode_defaultEncoding,
      bind, Except.bind]
    cases Text.Encoding.utf8Marked.decode bytes <;> rfl

/-- **Reading gives the file that the path holds.** The right side does not mention decoding or
cutting. -/
theorem read_eq_ok_iff : read w Settings.defaultEncoding path = .ok file ↔ Holds w path file := by
  rw [read_defaultEncoding, Holds]
  cases w.readBytes path with
  | error o => simp
  | ok bytes => cases h : Text.Encoding.utf8Marked.decode bytes <;> simp [h, eq_comm]

/-- A file is readable if reading it gives a file. -/
theorem readable_iff : Readable w path ↔ ∃ file, read w Settings.defaultEncoding path = .ok file :=
  exists_congr fun _ => read_eq_ok_iff.symm

/-- A text is decoded or undecodable; no mark has to stand before it. -/
theorem eq_undecodable_of_decode {bytes : Text.Bytes} {cause : Text.Encoding.Cause}
    (h : Text.Encoding.utf8Marked.decode bytes = .error cause) : cause = .undecodable := by
  rw [Text.Encoding.decode] at h
  cases hdecode : Text.Utf8.decode? (Text.Encoding.dropMark bytes) <;> rw [hdecode] at h
  · exact (Except.error.inj h).symm
  · exact nomatch h

/-- **A path that cannot be read is a failure that names it,** unless it holds NUL. With NUL in its
path, the failure is another one that names no path. -/
theorem read_of_not_readable (hnul : path.holdsNul = false) (h : ¬ Readable w path) :
    ∃ cause, read w Settings.defaultEncoding path = .error (.read path cause) := by
  rw [readable_iff, read_defaultEncoding] at h
  rw [read_defaultEncoding]
  cases hbytes : w.readBytes path with
  | error o =>
    cases o with
    | nul => exact absurd hbytes (Workspace.readBytes_ne_nul hnul w)
    | refused r => exact ⟨.refused r, rfl⟩
  | ok bytes =>
    cases htext : Text.Encoding.utf8Marked.decode bytes with
    | ok text => simp [hbytes, htext] at h
    | error cause =>
      obtain rfl := eq_undecodable_of_decode htext
      exact ⟨.undecodable, by simp only [htext, failureOf]⟩

end MemberHarvest.Source
