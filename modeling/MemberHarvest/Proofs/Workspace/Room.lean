import Mathlib.Data.Nat.Digits.Lemmas
import MemberHarvest.Proofs.Path.Normal
import MemberHarvest.Proofs.Workspace.Making
import MemberHarvest.Proofs.Workspace.Resaving

/-!
# Proofs/Workspace/Room — saving where the draft has room

The first hundred million marks have eight digits, so that a draft that is free under one of them
has a name of a known length (`size_freshMark`). A path that `HasRoom` for such a draft has its file
saved just where it `Takes` a file: the directories on the way can be made, and none of them is made
in the file's own place (`exists_save_iff_takes`).
-/

namespace MemberHarvest

open MemberHarvest.Path (Place)

/-! ## The length of a mark -/

/-- Digits have one byte each. -/
theorem Text.Utf8.size_of_isDigit {cs : List Char} (h : ∀ c ∈ cs, isDigit c = true) :
    size cs = cs.length := by
  induction cs with
  | nil => rfl
  | cons c cs ih =>
    obtain ⟨hc, hrest⟩ := List.forall_mem_cons.1 h
    have hbyte : c.utf8Size = 1 := by
      rw [isDigit, Bool.and_eq_true, decide_eq_true_eq, decide_eq_true_eq] at hc
      exact Char.utf8Size_eq_one_iff.2 (Nat.le_trans hc.2 (by decide))
    rw [size, hbyte, ih hrest, List.length_cons, Nat.add_comm]

/-- A number that is not too large fills the width that it is padded to. -/
theorem Text.size_padded {width n : Nat} (hwidth : 0 < width) (h : n < 10 ^ width) :
    Utf8.size (padded width n) = width := by
  have hlength : (decimal n).length ≤ width := Nat.toDigits_length 10 n width hwidth h
  have hdigit : ∀ c ∈ padded width n, isDigit c = true := by
    intro c hc
    rcases List.mem_append.1 hc with hzero | hdecimal
    · rw [List.eq_of_mem_replicate hzero]
      decide
    · exact isDigit_of_mem_decimal hdecimal
  rw [Utf8.size_of_isDigit hdigit, padded, List.length_append, List.length_replicate]
  omega

namespace Path

variable {p : Path} {cwd : Place}

/-- A path without `..` does not go through the place of its last name before. -/
theorem placeOf_not_mem_trail_parent (hnames : p.names ≠ []) (hup : ".." ∉ p.names) :
    p.placeOf cwd ∉ p.parent.trail cwd := by
  intro hmem
  obtain ⟨ns, hns, heq⟩ := mem_trail.1 hmem
  have hbegins : ns <+: p.names := hns.trans (List.dropLast_prefix _)
  have hshort : ns.length ≤ p.names.dropLast.length := hns.length_le
  have hsame : ns = p.names := by
    rw [placeOf, placeOf, follow_of_not_mem fun h => hup (hbegins.subset h), follow_of_not_mem hup]
      at heq
    exact List.append_cancel_left heq
  have hpos := List.length_pos_iff.2 hnames
  rw [hsame, List.length_dropLast] at hshort
  omega

end Path

namespace Workspace

variable {w u : Workspace} {p : Path} {here : Place} {n : String} {bytes : Text.Bytes}

theorem size_draftMark {i : Nat} (h : i < 10 ^ 8) : Text.Utf8.size (draftMark i).toList = 8 := by
  rw [draftMark, String.toList_ofList, Text.size_padded (by decide) h]

/-- **The mark that is taken has eight digits if a draft with eight digits is free.** The marks are
tried from the least number on, and those of eight digits come first. -/
theorem size_freshMark {t : FileTree} {name : String} {i : Nat} (hi : i < 10 ^ 8)
    (hfree : t.find? (here ++ [draftName name (draftMark i)]) = none) :
    Text.Utf8.size (freshMark t here name).toList = 8 := by
  rw [freshMark]
  cases hfirst : (List.range (t.nodes.length + 1)).find? fun i =>
      (t.find? (here ++ [draftName name (draftMark i)])).isNone with
  | none => exact size_draftMark (by decide)
  | some j =>
    obtain ⟨-, -, hbefore⟩ := List.find?_range_eq_some.1 hfirst
    have hji : j ≤ i := by
      by_contra hij
      have htaken := hbefore i (by omega)
      simp [hfree] at htaken
    exact size_draftMark (show j < 10 ^ 8 by omega)

/-- Drafts of one file have paths of the same length if their marks have. -/
theorem size_draftPath_congr {parent : Path} {name mark mark' : String}
    (h : Text.Utf8.size mark.toList = Text.Utf8.size mark'.toList) :
    Text.Utf8.size (draftPath parent here name mark).toList =
      Text.Utf8.size (draftPath parent here name mark').toList := by
  have hsize (anchor : Path.Anchor) (m : String) :=
    Path.size_toString (p := ⟨anchor, here ++ [draftName name m]⟩) (by simp)
  simp only [Path.namesSize_append, Path.namesSize_singleton, size_draftName] at hsize
  generalize hanchor : (if parent.anchor = .network then Path.Anchor.network else .root) = anchor
  have hmark := hsize anchor mark
  have hmark' := hsize anchor mark'
  simp only [draftPath, hanchor]
  omega

/-! ## Room for a draft -/

/-- A draft can be written beside a path's place: the path is short enough, so are its last name and
the draft's path with eight digits for a mark, and one such draft is free and is no directory on the
way. -/
structure HasRoom (w : Workspace) (p : Path) : Prop where
  path : Text.Utf8.size p.toString.toList ≤ FileTree.maxPath
  name : Text.Utf8.size p.name.toList ≤ 241
  draftPath : Text.Utf8.size
    (Workspace.draftPath p.parent (p.parent.placeOf w.current) p.name (draftMark 0)).toList ≤
      FileTree.maxPath
  free : ∃ i < 10 ^ 8,
    w.tree.find? (p.parent.placeOf w.current ++ [draftName p.name (draftMark i)]) = none ∧
      p.parent.placeOf w.current ++ [draftName p.name (draftMark i)] ∉ p.parent.trail w.current

/-- **Room is left when the directories on the way are made.** None of them takes the place of the
draft that is free. -/
theorem HasRoom.size_markFor (h : HasRoom w p) (hgains : Gains w u (p.parent.trail w.current)) :
    Text.Utf8.size (u.markFor p).toList = 8 := by
  obtain ⟨i, hi, hfree, hout⟩ := h.free
  refine size_freshMark hi ?_
  rw [hgains.current]
  rcases hgains.tree (p.parent.placeOf w.current ++ [draftName p.name (draftMark i)]) with
    hkept | ⟨-, -, hmade⟩
  · rw [hkept, hfree]
  · exact absurd hmade hout

/-- **A path with room receives a file once its directory is there.** A draft's name and path are
short enough, whichever mark of eight digits it has. -/
theorem HasRoom.receives (h : HasRoom w p) (hgains : Gains w u (p.parent.trail w.current))
    (hnul : p.holdsNul = false) (hparent : u.isDirectory p.parent = .ok true)
    (hfile : u.isDirectory p = .ok false) : Receives u p where
  holdsNul := hnul
  parent := hparent
  isDirectory := hfile
  draftName := by
    have hname := h.name
    rw [FileTree.isTooLong_eq_false_iff, size_draftName, h.size_markFor hgains, FileTree.maxName]
    omega
  draftPath := by
    rw [hgains.current,
      size_draftPath_congr
      ((h.size_markFor hgains).trans (size_draftMark (i := 0) (by decide)).symm)]
    exact h.draftPath

/-- **No name of more bytes receives a file,** if a draft with a mark of eight digits is free. With
the mark and the six bytes around it, a longer one would have a draft that no name may be. -/
theorem Receives.size_name_le (h : Receives w p) {i : Nat} (hi : i < 10 ^ 8)
    (hfree : w.tree.find? (p.parent.placeOf w.current ++
      [Workspace.draftName p.name (draftMark i)]) = none) :
    Text.Utf8.size p.name.toList ≤ 241 := by
  have hshort := h.draftName
  rw [FileTree.isTooLong_eq_false_iff, size_draftName, markFor, size_freshMark hi hfree,
    FileTree.maxName] at hshort
  omega

/-! ## Saving -/

/-- The directories on the way are made first, and then the file is saved as if they had been
there. -/
theorem save_eq_save (hnul : p.holdsNul = false) (hmade : w.makeDirectories p.parent = (u, .ok ()))
    (hparent : u.isDirectory p.parent = .ok true) : w.save p bytes = u.save p bytes := by
  rw [save, save, Path.holdsNul_parent hnul, hmade, makeDirectories_of_isDirectory hparent]
  rfl

/-- Of the places that held no directory, those on the way hold one now. -/
theorem Gains.isDirectory_eq_false_iff {q : Place} (h : Gains w u (p.trail w.current))
    (hp : u.isDirectory p = .ok true) :
    u.tree.isDirectory q = false ↔ w.tree.isDirectory q = false ∧ q ∉ p.trail w.current := by
  constructor
  · refine fun hq => ⟨?_, fun hmem => ?_⟩
    · by_contra hdir
      rw [h.isDirectory (by simpa using hdir)] at hq
      cases hq
    · rw [isDirectory_of_mem_trail hp q (h.current ▸ hmem)] at hq
      cases hq
  · rintro ⟨hq, hmem⟩
    rcases h.tree q with hkept | ⟨-, -, hmade⟩
    · rwa [FileTree.isDirectory, hkept]
    · exact absurd hmade hmem

/-- A path leads from the directory above it to its last name. -/
theorem leadsTo_of_parent (hparent : w.isDirectory p.parent = .ok true)
    (hsize : Text.Utf8.size p.toString.toList ≤ FileTree.maxPath)
    (hlast : p.names.getLast? = some n) (hup : n ≠ "..")
    (hshort : FileTree.isTooLong n = false) : LeadsTo w p (p.parent.placeOf w.current) n :=
  have hthere := locate_of_isDirectory hparent
  ⟨hsize, hlast, (walk_of_locate hthere.1).2, hthere.2, hup, hshort⟩

/-- Nothing is in the way of a file: its path leads to a name, the directories on the way are there
or can be made, and its place holds no directory. -/
structure IsUnobstructed (w : Workspace) (p : Path) : Prop where
  holdsNul : p.holdsNul = false
  ne_dotdot : p.name ≠ ".."
  isOpen : IsOpen w p.parent
  isDirectory : w.tree.isDirectory (p.placeOf w.current) = false

/-- A path takes a file: nothing is in the way, and its place is not among those on the way, where
directories are made. -/
structure Takes (w : Workspace) (p : Path) : Prop extends IsUnobstructed w p where
  not_mem_trail : p.placeOf w.current ∉ p.parent.trail w.current

/-- **Beside a directory that is there, a file is saved just where its name leads to no directory,**
if there is room. -/
theorem HasRoom.exists_save_iff (h : HasRoom w p) (hgains : Gains w u (p.parent.trail w.current))
    (hnul : p.holdsNul = false) (hparent : u.isDirectory p.parent = .ok true) :
    (∃ v, u.save p bytes = (v, .ok ())) ↔
      p.name ≠ ".." ∧ u.tree.isDirectory (p.placeOf u.current) = false := by
  constructor
  · rintro ⟨v, hv⟩
    obtain ⟨hreceives, -, -⟩ := save_eq_ok hparent hv
    obtain ⟨n, hlead, hfree⟩ := leadsTo_of_isDirectory hparent hreceives.isDirectory hnul
    have hname : p.name = n := Path.name_eq hlead.getLast?
    exact ⟨hname ▸ hlead.ne_dotdot, by rw [hlead.placeOf_eq, hfree]⟩
  · rintro ⟨hup, hfree⟩
    cases hlast : p.names.getLast? with
    | none =>
      rw [← parent_eq_self hlast, (locate_of_isDirectory hparent).2] at hfree
      cases hfree
    | some n =>
      have hname : p.name = n := Path.name_eq hlast
      have hshort : FileTree.isTooLong n = false :=
        FileTree.isTooLong_eq_false_iff.2 (hname ▸ h.name.trans (by decide))
      have hlead := leadsTo_of_parent hparent h.path hlast (hname ▸ hup) hshort
      rw [hlead.placeOf_eq] at hfree
      exact save_of_receives (h.receives hgains hnul hparent (hlead.isDirectory_eq hfree hnul))
        bytes

theorem exists_makeDirectories_of_save (h : w.save p bytes = (u, .ok ())) :
    p.holdsNul = false ∧ ∃ housed, w.makeDirectories p.parent = (housed, .ok ()) := by
  rw [save] at h
  split at h
  · cases h
  split at h
  · cases h
  rename_i housed hmade
  split at h
  · cases h
  rename_i hnul
  exact ⟨by simpa using hnul, housed, hmade⟩

/-- **With room for a draft, a file is saved just where the path takes it.** This is the statement
on destinations in terms of the workspace alone. -/
theorem exists_save_iff_takes (hcurrent : w.tree.isDirectory w.current = true) (hp : p.IsPlain)
    (hroom : HasRoom w p) :
    (∃ u, w.save p bytes = (u, .ok ())) ↔ w.Takes p := by
  have hopen (hnul : p.holdsNul = false) :=
    makeDirectories_eq_ok_iff hcurrent hp.parent (Path.holdsNul_parent hnul)
    (Path.size_parent_le_maxPath hroom.path)
  have hhoused (hnul : p.holdsNul = false) {housed : Workspace}
      (hmade : w.makeDirectories p.parent = (housed, .ok ())) :
      (∃ u, w.save p bytes = (u, .ok ())) ↔ p.name ≠ ".." ∧
        w.tree.isDirectory (p.placeOf w.current) = false ∧
          p.placeOf w.current ∉ p.parent.trail w.current := by
    have hgains := gains_makeDirectories w p.parent
    rw [hmade] at hgains
    have hparent : housed.isDirectory p.parent = .ok true :=
      isDirectory_of_makeUpTo hp.parent (Path.holdsNul_parent hnul) hmade
    rw [save_eq_save hnul hmade hparent, hroom.exists_save_iff hgains hnul hparent, hgains.current,
      hgains.isDirectory_eq_false_iff hparent]
  constructor
  · rintro ⟨u, hu⟩
    obtain ⟨hnul, housed, hmade⟩ := exists_makeDirectories_of_save hu
    obtain ⟨hup, hfree, hout⟩ := (hhoused hnul hmade).1 ⟨u, hu⟩
    exact ⟨⟨hnul, hup, (hopen hnul).1 ⟨housed, hmade⟩, hfree⟩, hout⟩
  · rintro ⟨⟨hnul, hup, hparent, hfree⟩, hout⟩
    obtain ⟨housed, hmade⟩ := (hopen hnul).2 hparent
    exact (hhoused hnul hmade).2 ⟨hup, hfree, hout⟩

end Workspace
end MemberHarvest
