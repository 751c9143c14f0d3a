import MemberHarvest.Proofs.Workspace.Directories
import MemberHarvest.Proofs.Workspace.Draft

/-!
# Proofs/Workspace/Saving — a file is saved whole or not at all

A workspace in which a file is `Saved` holds it at the path's place, finds it along the path, and
has kept every other place but for new directories. `save` ends in such a workspace, or it fails and
only adds directories on the way to the path's parent: the draft is gone in both cases, since it was
put at a free place.
-/

namespace MemberHarvest.Workspace

open MemberHarvest.Path (Place)

variable {w u : Workspace} {p : Path} {here : Place} {n : String} {bytes : Text.Bytes}

/-- `u` is `w` with the file at the path, and with directories at some of the places. -/
structure Saved (w u : Workspace) (p : Path) (bytes : Text.Bytes) (made : List Place) : Prop where
  readBytes : u.readBytes p = .ok bytes
  find? : u.tree.find? (p.placeOf w.current) = some (.file bytes)
  kept : ∀ q, q ≠ p.placeOf w.current → FileTree.KeptAt w.tree u.tree made q
  current : u.current = w.current
  host : u.host = w.host

/-- A file that is saved after directories were made is saved together with them. -/
theorem Gains.saved {v : Workspace} {made : List Place} (h : Gains w u made)
    (hs : Saved u v p bytes []) : Saved w v p bytes made where
  readBytes := hs.readBytes
  find? := h.current ▸ hs.find?
  kept q hq := (h.tree q).trans ((hs.kept q (h.current ▸ hq)).mono (List.nil_subset _))
  current := hs.current.trans h.current
  host := hs.host.trans h.host

/-! ## Names of nodes -/

/-- The last name of a plain path is one that a file can have. -/
theorem isName_of_leadsTo (h : LeadsTo w p here n) (hp : p.IsPlain) (hnul : p.holdsNul = false) :
    FileTree.isName n = true := by
  have hmem : n ∈ p.names := List.mem_of_getLast? h.getLast?
  obtain ⟨hne, hdot, hslash⟩ := hp n hmem
  have hn : n.toList.contains '\x00' = false := by
    rw [Path.holdsNul, List.any_eq_false] at hnul
    simpa using hnul n hmem
  have hs : n.toList.contains '/' = false := by simpa using hslash
  rw [FileTree.isName, hs, hn, h.not_isTooLong]
  simp [hne, hdot, h.ne_dotdot]

/-! ## Where a path leads -/

/-- A path leads to the same place in a tree that has all the directories. -/
theorem LeadsTo.mono (h : LeadsTo w p here n) (hcur : u.current = w.current)
    (hsub : ∀ q, w.tree.isDirectory q = true → u.tree.isDirectory q = true) :
    LeadsTo u p here n where
  size_le := h.size_le
  getLast? := h.getLast?
  walk := by
    rw [start, hcur]
    exact FileTree.walk_of_isDirectory hsub h.walk h.isDirectory
  isDirectory := hsub _ h.isDirectory
  ne_dotdot := h.ne_dotdot
  not_isTooLong := h.not_isTooLong

/-- Behind the directory of its last name, a path goes on with that name. -/
theorem locate_eq_walk_singleton (hsize : Text.Utf8.size p.toString.toList ≤ FileTree.maxPath)
    (hlast : p.names.getLast? = some n)
    (hwalk : w.tree.walk (w.start p) p.names.dropLast = .ok here) :
    w.locate p = w.tree.walk here [n] := by
  obtain ⟨ns, hns⟩ := List.getLast?_eq_some_iff.1 hlast
  rw [hns, List.dropLast_concat] at hwalk
  rw [Workspace.locate, FileTree.locate, if_neg (by omega), hns, FileTree.walk_append]
  change (w.tree.walk (w.start p) ns).bind _ = _
  rw [hwalk]
  rfl

theorem LeadsTo.locate (h : LeadsTo w p here n)
    (hnode : (w.tree.find? (here ++ [n])).isSome = true) :
    w.locate p = .ok (here ++ [n]) := by
  rw [locate_eq_walk_singleton h.size_le h.getLast? h.walk]
  simp [FileTree.walk, h.isDirectory, h.not_isTooLong, Path.step, h.ne_dotdot, hnode]

/-- **The file that a path leads to is the one that is read along it.** Reading and saving walk
along the same names. -/
theorem LeadsTo.readBytes (h : LeadsTo w p here n) (hnul : p.holdsNul = false)
    (hfile : w.tree.find? (here ++ [n]) = some (.file bytes)) : w.readBytes p = .ok bytes := by
  rw [Workspace.readBytes, hnul, h.locate (by rw [hfile]; rfl)]
  simp [hfile]

/-! ## The draft -/

variable {draft : Place} {t : FileTree}

/-- Putting the file into a tree that holds what the workspace held saves it. -/
theorem LeadsTo.saved_put (h : LeadsTo w p here n) (hp : p.IsPlain) (hnul : p.holdsNul = false)
    (hfree : w.tree.isDirectory (here ++ [n]) = false) (ht : ∀ q, t.find? q = w.tree.find? q) :
    Saved w { w with tree := t.put (here ++ [n]) (.file bytes) } p bytes [] := by
  have hdir (q : Place) : t.isDirectory q = w.tree.isDirectory q := by
    rw [FileTree.isDirectory, FileTree.isDirectory, ht]
  have hadmits : t.admitsAt (here ++ [n]) = true :=
    FileTree.admitsAt_append (by rw [hdir, h.isDirectory]) (isName_of_leadsTo h hp hnul)
      (by rw [hdir, hfree])
  have hfile : (t.put (here ++ [n]) (.file bytes)).find? (here ++ [n]) = some (.file bytes) := by
    rw [FileTree.find?_put hadmits, if_pos rfl]
  have hother {q : Place} (hq : q ≠ here ++ [n]) :
      (t.put (here ++ [n]) (.file bytes)).find? q = w.tree.find? q := by
    rw [FileTree.find?_put_of_ne hq, ht]
  have hlead : LeadsTo { w with tree := t.put (here ++ [n]) (.file bytes) } p here n := by
    refine h.mono rfl fun q hq => ?_
    have hne : q ≠ here ++ [n] := by
      rintro rfl
      rw [hfree] at hq
      exact absurd hq (by simp)
    rw [FileTree.isDirectory_iff, hother hne]
    exact FileTree.isDirectory_iff.1 hq
  exact
    { readBytes := hlead.readBytes hnul hfile
      find? := by rw [h.placeOf_eq, hfile]
      kept := fun q hq => .inl (hother (h.placeOf_eq ▸ hq))
      current := rfl
      host := rfl }

/-- **A draft that takes the place of the destination leaves a saved file.** The draft is gone, and
no other place has changed. -/
theorem saved_of_promote (hfree : w.tree.find? draft = none) (hp : p.IsPlain)
    (hnul : p.holdsNul = false)
    (h : promote { w with tree := w.tree.put draft (.file bytes) } draft bytes p = .ok u) :
    Saved w u p bytes [] := by
  rw [promote] at h
  split at h
  · simp at h
  · simp at h
  rename_i here n hdoor
  split at h
  · simp at h
  rename_i hdir
  obtain rfl := Except.ok.inj h
  have hlead : LeadsTo w p here n := by
    refine (leadsTo_of_doorway hdoor).mono rfl fun q hq => ?_
    rwa [FileTree.isDirectory_put_file hfree] at hq
  refine hlead.saved_put hp hnul ?_ (FileTree.find?_remove_put hfree _)
  rw [← FileTree.isDirectory_put_file hfree bytes]
  simpa using hdir

/-- What saving a file in a directory leads to: the saved file, or the places as they were. -/
theorem saveIn_cases (w : Workspace) (here : Place) (bytes : Text.Bytes) (hp : p.IsPlain)
    (hnul : p.holdsNul = false) :
    (∃ u, w.saveIn here p bytes = (u, .ok ()) ∧ Saved w u p bytes []) ∨
      ∃ u r, w.saveIn here p bytes = (u, .error (.refused r)) ∧ Gains w u [] := by
  have hfree := find?_draft w.tree here p.name
  rw [saveIn]
  simp only
  split
  · exact .inr ⟨_, _, rfl, .refl w _⟩
  · split
    · rename_i saved h
      exact .inl ⟨saved, rfl, saved_of_promote hfree hp hnul h⟩
    · refine .inr ⟨_, _, rfl, fun q => .inl ?_, rfl, rfl⟩
      exact FileTree.find?_remove_put hfree _ q

/-! ## Saving -/

/-- **A file is saved, or only directories on the way to its parent are added.** In the second case
the draft is removed again, or was never put. -/
theorem save_cases (w : Workspace) (bytes : Text.Bytes) (hp : p.IsPlain) :
    (∃ u, w.save p bytes = (u, .ok ()) ∧ Saved w u p bytes (p.parent.trail w.current)) ∨
      ∃ u e, w.save p bytes = (u, .error e) ∧ Gains w u (p.parent.trail w.current) ∧
        (e = .nul → p.holdsNul = true) := by
  rw [save]
  split
  · rename_i hnul
    exact .inr ⟨w, _, rfl, .refl w _, fun _ => Path.holdsNul_of_parent hnul⟩
  have hgains := gains_makeDirectories w p.parent
  split
  · rename_i housed r hmade
    rw [hmade] at hgains
    exact .inr ⟨housed, _, rfl, hgains, fun h => absurd h (by simp)⟩
  · rename_i housed hmade
    rw [hmade] at hgains
    split
    · rename_i hnul
      exact .inr ⟨housed, _, rfl, hgains, fun _ => hnul⟩
    rename_i hnul
    split
    · rename_i here hlocate
      rcases saveIn_cases housed here bytes hp (by simpa using hnul) with
        ⟨u, hu, hs⟩ | ⟨u, r, hu, hg⟩
      · refine .inl ⟨u, hu, hgains.saved hs⟩
      · refine .inr ⟨u, _, hu, hgains.trans (hg.mono (List.nil_subset _)),
          fun h => absurd h (by simp)⟩
    · exact .inr ⟨housed, _, rfl, hgains, fun h => absurd h (by simp)⟩

end MemberHarvest.Workspace
