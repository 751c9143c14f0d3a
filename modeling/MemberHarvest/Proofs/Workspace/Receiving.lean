import MemberHarvest.Proofs.Workspace.Saving

/-!
# Proofs/Workspace/Receiving — where a file is saved

A path that `Receives` a file names something in a directory that is there, itself names no
directory, and has room for the draft beside it. There `save` succeeds (`save_of_receives`): no
directory is missing, so none is made, and the draft can take the destination's place.
-/

namespace MemberHarvest.Workspace

open MemberHarvest.Path (Place)

variable {w : Workspace} {p : Path} {here : Place} {n : String}

/-- The mark of the draft for a path. -/
def markFor (w : Workspace) (p : Path) : String :=
  freshMark w.tree (p.parent.placeOf w.current) p.name

/-- A file can be saved at a path. -/
structure Receives (w : Workspace) (p : Path) : Prop where
  holdsNul : p.holdsNul = false
  parent : w.isDirectory p.parent = .ok true
  isDirectory : w.isDirectory p = .ok false
  draftName : FileTree.isTooLong (Workspace.draftName p.name (w.markFor p)) = false
  draftPath : Text.Utf8.size
    (Workspace.draftPath p.parent (p.parent.placeOf w.current) p.name (w.markFor p)).toList ≤
      FileTree.maxPath

/-! ## Directories that are there -/

theorem locate_of_isDirectory (h : w.isDirectory p = .ok true) :
    w.locate p = .ok (p.placeOf w.current) ∧ w.tree.isDirectory (p.placeOf w.current) = true := by
  rw [Workspace.isDirectory, probe] at h
  split at h
  · simp at h
  split at h
  · rename_i place hplace
    rw [← FileTree.locate_eq_placeOf hplace]
    exact ⟨hplace, by simpa using h⟩
  · simp at h
  · simp at h

/-- What is located has a path that is not too long, and a walk leads to it. -/
theorem walk_of_locate {place : Place} (h : w.locate p = .ok place) :
    Text.Utf8.size p.toString.toList ≤ FileTree.maxPath ∧
      w.tree.walk (w.start p) p.names = .ok place := by
  rw [Workspace.locate, FileTree.locate] at h
  split at h
  · simp at h
  · exact ⟨by omega, h⟩

/-- A directory that is there is not made again. -/
theorem makeDirectory_of_isDirectory (h : w.isDirectory p = .ok true) :
    w.makeDirectory p = .error .alreadyThere := by
  obtain ⟨hsize, hwalk⟩ := walk_of_locate (locate_of_isDirectory h).1
  rw [makeDirectory, doorway, if_neg (by omega)]
  cases hlast : p.names.getLast? with
  | none => rfl
  | some n =>
    obtain ⟨ns, hns⟩ := List.getLast?_eq_some_iff.1 hlast
    rw [hns] at hwalk
    obtain ⟨there, hthere, hdir, hshort, hnode⟩ := FileTree.walk_concat hwalk
    simp only [hns, List.dropLast_concat, hthere, hdir, hshort]
    by_cases hup : n = ".."
    · simp [hup]
    · rw [Path.step, if_neg hup] at hnode
      simp [hup, hnode]

/-- **A directory that is there is content with itself.** So a second run makes none. -/
theorem makeDirectories_of_isDirectory (h : w.isDirectory p = .ok true) :
    w.makeDirectories p = (w, .ok ()) := by
  rw [makeDirectories]
  cases p.names.length <;> simp [makeUpTo, makeDirectory_of_isDirectory h, orThere, h]

/-! ## The place of the file -/

/-- What is no directory is none at the place where it is located. -/
theorem not_isDirectory_of_locate {place : Place} (h : w.isDirectory p = .ok false)
    (hnul : p.holdsNul = false) (hplace : w.locate p = .ok place) :
    w.tree.isDirectory place = false := by
  rw [Workspace.isDirectory, probe, hnul, hplace] at h
  simpa using h

theorem locate_ne_nameTooLong {isThere : Bool} (h : w.isDirectory p = .ok isThere)
    (hnul : p.holdsNul = false) : w.locate p ≠ .error .nameTooLong := by
  intro hlong
  rw [Workspace.isDirectory, probe, hnul, hlong] at h
  simp at h

theorem size_le_of_isDirectory {isThere : Bool} (h : w.isDirectory p = .ok isThere)
    (hnul : p.holdsNul = false) : Text.Utf8.size p.toString.toList ≤ FileTree.maxPath := by
  by_contra hsize
  exact locate_ne_nameTooLong h hnul (by rw [Workspace.locate, FileTree.locate, if_pos (by omega)])

/-- In a directory, a name that leads to no directory does not lead up. -/
theorem ne_dotdot_of_step (hdir : w.tree.isDirectory here = true)
    (h : (w.tree.find? (Path.step here n)).isSome = true →
      w.tree.isDirectory (Path.step here n) = false) : n ≠ ".." := by
  rintro rfl
  have habove : w.tree.isDirectory here.dropLast = true :=
    FileTree.isDirectory_dropLast (by rw [FileTree.isDirectory_iff.1 hdir]; rfl)
  have hnot := h (by rw [Path.step, if_pos rfl, FileTree.isDirectory_iff.1 habove]; rfl)
  rw [Path.step, if_pos rfl, habove] at hnot
  simp at hnot

/-- A path without names is its own parent. -/
theorem parent_eq_self (h : p.names.getLast? = none) : p.parent = p := by
  have hnames := List.getLast?_eq_none_iff.1 h
  rw [Path.parent, hnames, List.dropLast_nil, ← hnames]

/-- **A path in a directory that is no directory itself leads to a name in it.** The name is the
last one of the path, and it is not too long. -/
theorem leadsTo_of_isDirectory (hparent : w.isDirectory p.parent = .ok true)
    (hfile : w.isDirectory p = .ok false) (hnul : p.holdsNul = false) :
    ∃ n, LeadsTo w p (p.parent.placeOf w.current) n ∧
      w.tree.isDirectory (p.parent.placeOf w.current ++ [n]) = false := by
  obtain ⟨hlocate, hdir⟩ := locate_of_isDirectory hparent
  have hwalk : w.tree.walk (w.start p) p.names.dropLast = .ok (p.parent.placeOf w.current) :=
    (walk_of_locate hlocate).2
  generalize p.parent.placeOf w.current = here at hwalk hdir
  have hsize := size_le_of_isDirectory hfile hnul
  cases hlast : p.names.getLast? with
  | none =>
    rw [parent_eq_self hlast, hfile] at hparent
    simp at hparent
  | some n =>
    have hstep : w.locate p = w.tree.walk here [n] := locate_eq_walk_singleton hsize hlast hwalk
    have hshort : FileTree.isTooLong n = false := by
      by_contra hn
      exact locate_ne_nameTooLong hfile hnul (by rw [hstep]; simp [FileTree.walk, hdir, hn])
    have hnode (h : (w.tree.find? (Path.step here n)).isSome = true) :
        w.tree.isDirectory (Path.step here n) = false :=
      not_isDirectory_of_locate hfile hnul (by rw [hstep]; simp [FileTree.walk, hdir, hshort, h])
    have hup : n ≠ ".." := ne_dotdot_of_step hdir hnode
    rw [Path.step, if_neg hup] at hnode
    refine ⟨n, ⟨hsize, hlast, hwalk, hdir, hup, hshort⟩, ?_⟩
    by_contra hd
    rw [Bool.not_eq_false] at hd
    have hnot := hnode (by rw [FileTree.isDirectory_iff.1 hd]; rfl)
    rw [hd] at hnot
    simp at hnot

/-! ## Saving -/

/-- **A path that leads to a place has the doorway to it.** The converse is `leadsTo_of_doorway`. -/
theorem doorway_of_leadsTo (h : LeadsTo w p here n) : w.doorway p = .ok (some (here, n)) := by
  have hsize := h.size_le
  rw [doorway, if_neg (by omega), h.getLast?]
  simp [h.walk, h.isDirectory, h.ne_dotdot, h.not_isTooLong]

/-- A draft at a free place is promoted to a name that is no directory. -/
theorem exists_promote {draft : Place} (h : LeadsTo w p here n)
    (hfree : w.tree.isDirectory (here ++ [n]) = false) (hdraft : w.tree.find? draft = none)
    (bytes : Text.Bytes) :
    ∃ u, promote { w with tree := w.tree.put draft (.file bytes) } draft bytes p = .ok u := by
  have hdir := FileTree.isDirectory_put_file hdraft bytes
  have hlead : LeadsTo { w with tree := w.tree.put draft (.file bytes) } p here n :=
    h.mono rfl fun q hq => (hdir q).trans hq
  rw [promote, doorway_of_leadsTo hlead]
  simp [hdir, hfree]

/-- A file whose draft is promoted is saved, if the draft has room. -/
theorem saveIn_of_promote {u : Workspace} {bytes : Text.Bytes}
    (hname : FileTree.isTooLong (draftName p.name (freshMark w.tree here p.name)) = false)
    (hpath : Text.Utf8.size
      (draftPath p.parent here p.name (freshMark w.tree here p.name)).toList ≤ FileTree.maxPath)
    (hu : promote
      { w with tree := w.tree.put (here ++ [draftName p.name (freshMark w.tree here p.name)])
                (.file bytes) }
      (here ++ [draftName p.name (freshMark w.tree here p.name)]) bytes p = .ok u) :
    w.saveIn here p bytes = (u, .ok ()) := by
  rw [saveIn]
  simp only [hname, Bool.false_or, decide_eq_true_eq]
  rw [if_neg (by omega), hu]

/-- **A path that receives a file has it saved.** All that saving asks for is in `Receives`: a name
in a directory, and room for the draft beside it. -/
theorem save_of_receives (h : Receives w p) (bytes : Text.Bytes) :
    ∃ u, w.save p bytes = (u, .ok ()) := by
  obtain ⟨n, hlead, hfree⟩ := leadsTo_of_isDirectory h.parent h.isDirectory h.holdsNul
  have hdraft := find?_draft w.tree (p.parent.placeOf w.current) p.name
  obtain ⟨u, hu⟩ := exists_promote hlead hfree hdraft bytes
  have hparent : p.parent.holdsNul = false := Path.holdsNul_parent h.holdsNul
  refine ⟨u, ?_⟩
  rw [save, hparent, makeDirectories_of_isDirectory h.parent]
  simp only [h.holdsNul, (locate_of_isDirectory h.parent).1]
  exact saveIn_of_promote h.draftName h.draftPath hu

example : Receives ⟨.empty, [], {}⟩ (.ofString "out.json") :=
  ⟨by decide, by decide, by decide, by decide, by decide⟩

end MemberHarvest.Workspace
