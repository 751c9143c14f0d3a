import MemberHarvest.Proofs.FileTree.Kept
import MemberHarvest.Proofs.Path.Trail
import MemberHarvest.Workspace.Directories

/-!
# Proofs/Workspace/Directories — making directories adds them along the path

What `makeDirectories` does to a workspace, also where it is refused on the way, is to add
directories at places that the path goes through as it is written (`gains_makeDirectories`). One
step of it makes the directory that the doorway of a path leads to (`gains_makeDirectory`).
-/

namespace MemberHarvest.Workspace

open MemberHarvest.Path (Place)

variable {w u v : Workspace} {p : Path} {here : Place} {n : String}

/-- A workspace has gained directories at some of the places, and nothing else has changed. -/
structure Gains (w u : Workspace) (made : List Place) : Prop where
  tree : FileTree.AddsDirectories w.tree u.tree made
  current : u.current = w.current
  host : u.host = w.host

theorem Gains.refl (w : Workspace) (made : List Place) :
    Gains w w made := ⟨.refl w.tree made, rfl, rfl⟩

/-- What is gained twice is gained in all. -/
theorem Gains.trans {made : List Place} (h : Gains w u made) (h' : Gains u v made) :
    Gains w v made :=
  ⟨h.tree.trans h'.tree, h'.current.trans h.current, h'.host.trans h.host⟩

theorem Gains.mono {made more : List Place} (h : Gains w u made) (hsub : made ⊆ more) :
    Gains w u more :=
  ⟨fun q => (h.tree q).mono hsub, h.current, h.host⟩

/-! ## Doorways -/

/-- A path leads into the directory `here`, to the name `n` in it. -/
structure LeadsTo (w : Workspace) (p : Path) (here : Place) (n : String) : Prop where
  size_le : Text.Utf8.size p.toString.toList ≤ FileTree.maxPath
  getLast? : p.names.getLast? = some n
  walk : w.tree.walk (w.start p) p.names.dropLast = .ok here
  isDirectory : w.tree.isDirectory here = true
  ne_dotdot : n ≠ ".."
  not_isTooLong : FileTree.isTooLong n = false

/-- **The doorway of a path is where it leads to,** in a directory that is there. The converse is
`doorway_of_leadsTo`. -/
theorem leadsTo_of_doorway (h : w.doorway p = .ok (some (here, n))) : LeadsTo w p here n := by
  rw [doorway] at h
  split at h
  · simp at h
  rename_i hsize
  split at h
  · simp at h
  rename_i m hm
  split at h
  · simp at h
  rename_i there hwalk
  split at h
  · simp at h
  rename_i hdir
  split at h
  · simp at h
  rename_i hup
  split at h
  · simp at h
  rename_i hshort
  obtain ⟨rfl, rfl⟩ : there = here ∧ m = n := by simpa using h
  exact ⟨by omega, hm, hwalk, by simpa using hdir, hup, by simpa using hshort⟩

/-- The directory that a path leads into is its parent's place. -/
theorem LeadsTo.here_eq (h : LeadsTo w p here n) : here = p.parent.placeOf w.current :=
  FileTree.walk_eq_follow h.walk

theorem LeadsTo.placeOf_eq (h : LeadsTo w p here n) : p.placeOf w.current = here ++ [n] := by
  rw [h.here_eq, Path.placeOf_eq_append h.getLast? h.ne_dotdot]

/-! ## Making directories -/

/-- **A directory is made at the path's place,** which held nothing. Its parent was a directory
already. -/
theorem gains_makeDirectory (h : w.makeDirectory p = .ok u) : Gains w u (p.trail w.current) := by
  rw [makeDirectory] at h
  split at h
  · simp at h
  · simp at h
  rename_i here n hdoor
  split at h
  · simp at h
  rename_i hfree
  obtain rfl := Except.ok.inj h
  rw [Option.not_isSome_iff_eq_none] at hfree
  refine ⟨FileTree.addsDirectories_put hfree ?_, rfl, rfl⟩
  rw [← (leadsTo_of_doorway hdoor).placeOf_eq]
  exact Path.placeOf_mem_trail w.current p

/-- **Making the directories above a path gains nothing that is not on its trail.** This holds
whether or not it succeeds, as what was made is not taken back. -/
theorem gains_makeUpTo (above : Nat) (w : Workspace) (p : Path) :
    Gains w (makeUpTo above w p).1 (p.trail w.current) := by
  induction above generalizing w p with
  | zero =>
    rw [makeUpTo]
    split
    · rename_i made h
      exact gains_makeDirectory h
    · exact .refl w _
  | succ above ih =>
    have hparent : Gains w (makeUpTo above w p.parent).1 (p.trail w.current) :=
      (ih w p.parent).mono fun _ => Path.mem_trail_of_parent
    rw [makeUpTo]
    split
    · rename_i made h
      exact gains_makeDirectory h
    · split
      · rename_i housed r h
        rwa [h] at hparent
      · rename_i housed h
        rw [h] at hparent
        split
        · rename_i made hmade
          refine hparent.trans ?_
          rw [← hparent.current]
          exact gains_makeDirectory hmade
        · exact hparent
    · exact .refl w _

/-- **Making directories adds them along the path as it is written,** and does nothing else. A step
back on the way makes a directory, too, and then leaves it. -/
theorem gains_makeDirectories (w : Workspace) (p : Path) :
    Gains w (w.makeDirectories p).1 (p.trail w.current) := gains_makeUpTo _ w p

end MemberHarvest.Workspace
