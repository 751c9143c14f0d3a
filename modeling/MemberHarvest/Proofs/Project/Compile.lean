import Mathlib.Data.List.TakeWhile
import MemberHarvest.Project.Compile
import MemberHarvest.Proofs.Text.Trimmed
import MemberHarvest.Proofs.Workspace.Looking
import MemberHarvest.Proofs.Xml.Encoding

/-!
# Proofs/Project/Compile — how the files of a project cannot be told

What goes wrong with the text of a project file either names it or has one of a few causes: an
encoding that is not supported (`XmlFault`), an item that is no glob or holds NUL (`ItemFault`), or
a path that is too long to look at (`readElements_failsAs`, `selected_failsAs`).
-/

namespace MemberHarvest.Project

open Outcome

variable {w : Workspace} {path base : Path}

/-! ## Items -/

/-- Whether an item is a glob. -/
def isGlob (item : String) : Bool := item.toList.any fun c => c == '*' || c == '?'

/-- The text of the glob that an item stands for. -/
def globOf (item : String) : String := String.ofList (Path.slashes item.toList)

/-- What is wrong with an item. -/
inductive ItemFault (item : String) : Failure → Prop
  | glob {e : Failure} (isGlob : isGlob item = true) (fault : Glob.Fault (globOf item) e) :
    ItemFault item e
  | nul (isPath : isGlob item = false) (mem : '\x00' ∈ item.toList) : ItemFault item .nulInPath

/-- A text names a place with NUL just where it holds one. -/
theorem holdsNul_ofProjectText_iff {raw : String} :
    (Path.ofProjectText raw).holdsNul = true ↔ '\x00' ∈ raw.toList := by
  rw [Path.ofProjectText, Path.holdsNul_ofString_iff, String.toList_ofList]
  constructor
  · intro h
    obtain ⟨c, hc, hslash⟩ := List.mem_map.1 h
    split at hslash
    · exact absurd hslash (by decide)
    · exact hslash ▸ Text.mem_of_mem_trim hc
  · intro h
    exact List.mem_map.2 ⟨'\x00', Text.mem_trim h (by decide), by decide⟩

/-- A text of a project file brings the NUL character into a path, or nothing does. -/
theorem holdsNul_join_ofProjectText (hbase : base.holdsNul = false) (raw : String) :
    (base.join (Path.ofProjectText raw)).holdsNul = (Path.ofProjectText raw).holdsNul := by
  rw [Path.join]
  split
  · rfl
  · rw [Path.holdsNul] at hbase ⊢
    rw [List.any_append, hbase, Bool.false_or, Path.holdsNul]

/-- **A project text with NUL names no place,** and any other one the place that it leads to. A
backslash is taken for a slash. -/
theorem locate_eq (hbase : base.holdsNul = false) (cwd : Path.Place) (raw : String) :
    locate cwd base raw =
      if '\x00' ∈ raw.toList then .error .nulInPath else .ok (base.resolveRelative cwd raw) := by
  rw [locate, holdsNul_join_ofProjectText hbase]
  simp only [holdsNul_ofProjectText_iff]

/-- **Locating fails only at a NUL character.** The place need not exist. -/
theorem locate_failsAs (hbase : base.holdsNul = false) (cwd : Path.Place) (raw : String) :
    FailsAs (fun e => e = .nulInPath ∧ '\x00' ∈ raw.toList) (locate cwd base raw) := by
  rw [locate_eq hbase]
  split
  · rename_i hraw
    exact .error ⟨rfl, hraw⟩
  · exact .ok _

/-! ## Globs -/

/-- A search fails at a pattern that is none, or at a path that is too long to look at. -/
theorem globSources_failsAs (w : Workspace) (base : Path) (pattern : String) :
    FailsAs (fun e => Glob.ofString pattern = .error e ∨ w.IsTooLong e)
      (globSources w base pattern) :=
  .bind (w.glob_failsAs base pattern) fun _ _ => .ok _

/-- The search for everything has a legal pattern, so only a long path is left. -/
theorem globSources_everything_failsAs (w : Workspace) (base : Path) :
    FailsAs w.IsTooLong (globSources w base everything) := by
  have htext : (Glob.ofString everything).isOk = true := by decide
  exact (globSources_failsAs w base everything).mono fun e he =>
    he.resolve_left fun h => nomatch h ▸ htext

/-- An item fails by what is wrong with its text, or at a path that is too long. -/
theorem expand_failsAs (hbase : base.holdsNul = false) (item : String) :
    FailsAs (fun e => ItemFault item e ∨ w.IsTooLong e) (expand w base item) := by
  rw [expand]
  split
  · rename_i hglob
    refine (globSources_failsAs w base _).mono fun e => Or.imp_left fun hfault => ?_
    exact .glob hglob (Glob.ofString_failsAs _ e hfault)
  · rename_i hpath
    refine .map ((locate_failsAs hbase w.current item).mono ?_)
    rintro e ⟨rfl, hmem⟩
    exact .inl (.nul (Bool.not_eq_true _ ▸ hpath) hmem)

/-! ## Elements -/

/-- **Selecting the sources fails by one of the included items, or at a path that is too long.** An
item that is removed is compared by its text only, so it never fails. -/
theorem selected_failsAs (hbase : base.holdsNul = false) (es : List Xml.Element) :
    FailsAs (fun e => (∃ item ∈ included es, ItemFault item e) ∨ w.IsTooLong e)
      (selected w base es) := by
  have hmore : FailsAs (fun e => (∃ item ∈ included es, ItemFault item e) ∨ w.IsTooLong e)
      ((included es).mapM (expand w base)) := by
    refine .mapM fun item hitem => ?_
    exact (expand_failsAs hbase item).mono fun e => Or.imp_left fun hfault => ⟨item, hitem, hfault⟩
  rw [selected]
  split
  · refine .bind ((globSources_everything_failsAs w base).mono fun _ => .inr) fun _ _ => ?_
    exact .bind hmore fun _ _ => .ok _
  · exact .bind (.ok _) fun _ _ => .bind hmore fun _ _ => .ok _

/-- What a document is declared to be written in, where that is not supported: an encoding that the
registry has no page of, or one with more than one byte for a character. -/
inductive XmlFault (codecs : Text.Codecs) (bytes : Text.Bytes) : Failure → Prop
  | encoding {name : String} {cause : Text.Encoding.Cause} (page : codecs.page name = .error cause)
      (h : Xml.elements codecs bytes = .error (.encoding name cause)) :
    XmlFault codecs bytes (.ofEncoding name cause)
  | multiByteEncoding (h : Xml.elements codecs bytes = .error .multiByteEncoding) :
    XmlFault codecs bytes .multiByteEncoding

/-- Reading a project file fails as loading does, or by what its bytes are. -/
theorem readElements_failsAs (hpath : path.holdsNul = false) :
    FailsAs (fun e => (∃ cause, e = .load path cause) ∨
        ∃ bytes, w.readBytes path = .ok bytes ∧ XmlFault w.host.codecs bytes e)
      (readElements w path) := by
  refine .bind (.mapError fun o ho => ?_) fun bytes hbytes => .mapError fun cause hcause => ?_
  · cases o with
    | nul => exact absurd ho (Workspace.readBytes_ne_nul hpath w)
    | refused r => exact .inl ⟨_, rfl⟩
  · have hread := mapError_eq_ok_iff.1 hbytes
    cases cause with
    | malformed => exact .inl ⟨_, rfl⟩
    | encoding name cause =>
      exact .inr ⟨bytes, hread, .encoding (Xml.page_of_elements hcause).2 hcause⟩
    | multiByteEncoding => exact .inr ⟨bytes, hread, .multiByteEncoding hcause⟩

end MemberHarvest.Project
