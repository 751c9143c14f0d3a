import MemberHarvest.Proofs.Workspace.Receiving

/-!
# Proofs/Workspace/Making — where directories can be made

A path is open if its names are short and each place that it goes through, as it is written, holds a
directory or nothing (`IsOpen`). These are the paths along which all directories can be made
(`makeDirectories_eq_ok_iff`). The reason is in the walk: along an open path it arrives, or it stops
at a place that holds nothing (`walk_cases_of_free`). What is missing there is made, and the path
stays open.
-/

namespace MemberHarvest

open MemberHarvest.Path (Place)

namespace FileTree

variable {t : FileTree} {here : Place} {ns : List String}

/-- **A walk ends at a directory just where it goes through directories only.** Every beginning of
the names leads to a directory, steps back included. -/
theorem walk_directory_iff :
    (∃ there, t.walk here ns = .ok there ∧ t.isDirectory there = true) ↔
      (∀ n ∈ ns, isTooLong n = false) ∧ ∀ ms, ms <+: ns →
        t.isDirectory (Path.follow here ms) = true := by
  induction ns generalizing here with
  | nil => simp [walk, List.prefix_nil, Path.follow]
  | cons n ns ih =>
    constructor
    · rintro ⟨there, hwalk, hthere⟩
      have hhere := isDirectory_of_walk hwalk hthere
      rw [walk] at hwalk
      split at hwalk
      · cases hwalk
      split at hwalk
      · cases hwalk
      rename_i hshort
      split at hwalk
      · obtain ⟨hrest, hdirs⟩ := ih.1 ⟨there, hwalk, hthere⟩
        refine ⟨List.forall_mem_cons.2 ⟨by simpa using hshort, hrest⟩, fun ms hms => ?_⟩
        rcases List.prefix_cons_iff.1 hms with rfl | ⟨rest, rfl, hprefix⟩
        · exact hhere
        · exact hdirs rest hprefix
      · cases hwalk
    · rintro ⟨hshort, hdirs⟩
      obtain ⟨hn, hrest⟩ := List.forall_mem_cons.1 hshort
      have hhere : t.isDirectory here = true := hdirs [] List.nil_prefix
      have hnext : t.isDirectory (Path.step here n) = true := hdirs [n] (by simp)
      obtain ⟨there, hwalk, hthere⟩ :=
        ih.2 ⟨hrest, fun ms hms => hdirs (n :: ms) ((List.prefix_cons_inj n).2 hms)⟩
      refine ⟨there, ?_, hthere⟩
      simp only [walk, hhere, hn, isDirectory_iff.1 hnext]
      simpa using hwalk

/-- Where the places hold directories or nothing, a walk arrives at a directory or misses a node. -/
theorem walk_cases_of_free (hhere : t.isDirectory here = true)
    (hshort : ∀ n ∈ ns, isTooLong n = false) (hfree : ∀ ms, ms <+: ns →
      t.find? (Path.follow here ms) = none ∨ t.isDirectory (Path.follow here ms) = true) :
    (∃ there, t.walk here ns = .ok there ∧ t.isDirectory there = true) ∨
      t.walk here ns = .error .missing := by
  induction ns generalizing here with
  | nil => exact .inl ⟨here, rfl, hhere⟩
  | cons n ns ih =>
    obtain ⟨hn, hrest⟩ := List.forall_mem_cons.1 hshort
    have hstep : t.find? (Path.step here n) = none ∨ t.isDirectory (Path.step here n) = true :=
      hfree [n] (by simp)
    rcases hstep with hnone | hdir
    · right
      simp [walk, hhere, hn, hnone]
    · have hnode : (t.find? (Path.step here n)).isSome = true := by rw [isDirectory_iff.1 hdir]; rfl
      have hwalk : t.walk here (n :: ns) = t.walk (Path.step here n) ns := by
        simp [walk, hhere, hn, hnode]
      rw [hwalk]
      exact ih hdir hrest fun ms hms => hfree (n :: ms) (by simpa using hms)

end FileTree

namespace Path

variable {p : Path}

theorem IsPlain.parent (hp : p.IsPlain) :
    p.parent.IsPlain := fun n hn => hp n (List.mem_of_mem_dropLast hn)

/-- The parent of a path that is not too long is not too long. -/
theorem size_parent_le_maxPath (h : Text.Utf8.size p.toString.toList ≤ FileTree.maxPath) :
    Text.Utf8.size p.parent.toString.toList ≤ FileTree.maxPath := by
  by_cases hparent : p.parent.names = []
  · have htop : p.parent = ⟨p.anchor, []⟩ := by rw [← hparent]; rfl
    rw [htop]
    cases p.anchor <;> decide
  · have hnames : p.names ≠ [] := by
      intro hnil
      rw [parent, hnil] at hparent
      exact hparent rfl
    have hlong : namesSize p.parent.names ≤ namesSize p.names := by
      rw [← List.dropLast_concat_getLast hnames, namesSize_append]
      exact Nat.le_add_right _ _
    have hanchor : p.parent.anchor = p.anchor := rfl
    have hsize := size_toString hnames
    have hsize' := size_toString hparent
    rw [hanchor] at hsize'
    omega

end Path

namespace Workspace

variable {w u : Workspace} {p : Path} {here : Place} {n : String}

/-! ## Open paths -/

/-- All directories of a path are there or can be made: its names are short, and each place that it
goes through as it is written holds a directory or nothing. -/
structure IsOpen (w : Workspace) (p : Path) : Prop where
  short : ∀ n ∈ p.names, FileTree.isTooLong n = false
  free : ∀ q ∈ p.trail w.current, w.tree.find? q = none ∨ w.tree.isDirectory q = true

theorem IsOpen.parent (h : IsOpen w p) : IsOpen w p.parent where
  short n hn := h.short n (List.mem_of_mem_dropLast hn)
  free q hq := h.free q (Path.mem_trail_of_parent hq)

/-- **New directories keep a path open, and open none.** Where nothing stood there may be a
directory now, and either is fine for an open path. -/
theorem Gains.isOpen_iff {made : List Place} (h : Gains w u made) : IsOpen u p ↔ IsOpen w p := by
  have hfree (q : Place) : (u.tree.find? q = none ∨ u.tree.isDirectory q = true) ↔
      (w.tree.find? q = none ∨ w.tree.isDirectory q = true) := by
    simp only [FileTree.isDirectory_iff]
    rcases h.tree q with hkept | ⟨hold, hnew, -⟩
    · rw [hkept]
    · simp [hold, hnew]
  constructor
  · exact fun hopen => ⟨hopen.short, fun q hq => (hfree q).1 (hopen.free q (h.current ▸ hq))⟩
  · exact fun hopen => ⟨hopen.short, fun q hq => (hfree q).2 (hopen.free q (h.current ▸ hq))⟩

/-- A directory stays where directories are made. -/
theorem Gains.isDirectory {made : List Place} {q : Place} (h : Gains w u made)
    (hq : w.tree.isDirectory q = true) :
    u.tree.isDirectory q = true := by
  rw [FileTree.isDirectory_iff] at hq ⊢
  rcases h.tree q with hkept | ⟨hold, -, -⟩
  · rw [hkept, hq]
  · rw [hold] at hq
    cases hq

/-- A directory is where the names of its path lead to one. -/
theorem isDirectory_eq_ok_true_iff (hnul : p.holdsNul = false)
    (hsize : Text.Utf8.size p.toString.toList ≤ FileTree.maxPath) :
    w.isDirectory p = .ok true ↔
      ∃ there, w.tree.walk (w.start p) p.names = .ok there ∧ w.tree.isDirectory there = true := by
  have hlocate : w.locate p = w.tree.walk (w.start p) p.names := by
    rw [Workspace.locate, FileTree.locate, if_neg (by omega)]
    rfl
  rw [Workspace.isDirectory, probe, hnul, hlocate]
  cases h : w.tree.walk (w.start p) p.names with
  | ok there => simp
  | error cause => cases cause <;> simp

/-- **A path to a directory goes through directories.** The trail has every place that the path
comes by. -/
theorem isDirectory_of_mem_trail (h : w.isDirectory p = .ok true) :
    ∀ q ∈ p.trail w.current, w.tree.isDirectory q = true := by
  obtain ⟨hlocate, hdir⟩ := locate_of_isDirectory h
  obtain ⟨-, hdirs⟩ := FileTree.walk_directory_iff.1 ⟨_, (walk_of_locate hlocate).2, hdir⟩
  intro q hq
  obtain ⟨ns, hns, rfl⟩ := Path.mem_trail.1 hq
  exact hdirs ns hns

theorem isOpen_of_isDirectory (h : w.isDirectory p = .ok true) : IsOpen w p where
  short := by
    obtain ⟨hlocate, hdir⟩ := locate_of_isDirectory h
    exact (FileTree.walk_directory_iff.1 ⟨_, (walk_of_locate hlocate).2, hdir⟩).1
  free q hq := .inr (isDirectory_of_mem_trail h q hq)

/-! ## Making one directory -/

/-- The directory that was made is there. -/
theorem isDirectory_of_makeDirectory (hp : p.IsPlain) (hnul : p.holdsNul = false)
    (h : w.makeDirectory p = .ok u) :
    u.isDirectory p = .ok true := by
  rw [makeDirectory] at h
  split at h
  · cases h
  · cases h
  rename_i here n hdoor
  split at h
  · cases h
  rename_i hfree
  obtain rfl := Except.ok.inj h
  rw [Option.not_isSome_iff_eq_none] at hfree
  have hlead := leadsTo_of_doorway hdoor
  have hadmits : w.tree.admitsAt (here ++ [n]) = true :=
    FileTree.admitsAt_append hlead.isDirectory (isName_of_leadsTo hlead hp hnul)
      (by simp [FileTree.isDirectory, hfree])
  have hmade : (w.tree.put (here ++ [n]) .directory).find? (here ++ [n]) = some .directory := by
    rw [FileTree.find?_put hadmits, if_pos rfl]
  have hlead' : LeadsTo { w with tree := w.tree.put (here ++ [n]) .directory } p here n := by
    refine hlead.mono rfl fun q hq => ?_
    rw [FileTree.isDirectory_iff, FileTree.find?_put hadmits]
    split
    · rfl
    · exact FileTree.isDirectory_iff.1 hq
  rw [Workspace.isDirectory, probe, hnul, hlead'.locate (by rw [hmade]; rfl)]
  simp [FileTree.isDirectory, hmade]

/-- A failed attempt to make a directory is forgiven if the directory is there. -/
theorem orThere_eq_ok_iff {cause : FileTree.Cause} :
    w.orThere p cause = .ok () ↔ w.isDirectory p = .ok true := by
  rw [orThere]
  split <;> simp_all

theorem isDirectory_start (hcurrent : w.tree.isDirectory w.current = true) (p : Path) :
    w.tree.isDirectory (w.start p) = true := by
  rw [start]
  split
  · rfl
  · exact hcurrent

/-- A path without names is that of a directory, the one where it starts. -/
theorem isDirectory_of_names (hcurrent : w.tree.isDirectory w.current = true)
    (hnul : p.holdsNul = false) (hsize : Text.Utf8.size p.toString.toList ≤ FileTree.maxPath)
    (hnames : p.names = []) :
    w.isDirectory p = .ok true :=
  (isDirectory_eq_ok_true_iff hnul hsize).2 ⟨w.start p, by rw [hnames]; rfl,
    isDirectory_start hcurrent p⟩

/-- A path to a name in a directory leads to a directory if the name does. -/
theorem isDirectory_of_walk_parent (hnul : p.holdsNul = false)
    (hsize : Text.Utf8.size p.toString.toList ≤ FileTree.maxPath)
    (hlast : p.names.getLast? = some n)
    (hwalk : w.tree.walk (w.start p) p.names.dropLast = .ok here)
    (hdir : w.tree.isDirectory here = true)
    (hshort : FileTree.isTooLong n = false) (hstep : w.tree.isDirectory (Path.step here n) = true) :
    w.isDirectory p = .ok true := by
  have hnode : (w.tree.find? (Path.step here n)).isSome = true := by
    rw [FileTree.isDirectory_iff.1 hstep]; rfl
  rw [Workspace.isDirectory, probe, hnul, locate_eq_walk_singleton hsize hlast hwalk]
  simp [FileTree.walk, hdir, hshort, hnode, hstep]

/-- **Along an open path a directory is made, or is there, or its parent is missing.** The third
case is the one in which the directories above are made first. -/
theorem IsOpen.makeDirectory_cases (h : IsOpen w p) (hcurrent : w.tree.isDirectory w.current = true)
    (hnul : p.holdsNul = false) (hsize : Text.Utf8.size p.toString.toList ≤ FileTree.maxPath) :
    (∃ u, w.makeDirectory p = .ok u) ∨ w.makeDirectory p = .error .alreadyThere ∧
      w.isDirectory p = .ok true ∨
      w.makeDirectory p = .error .missing ∧ w.isDirectory p.parent ≠ .ok true := by
  by_cases hthere : w.isDirectory p = .ok true
  · exact .inr (.inl ⟨makeDirectory_of_isDirectory hthere, hthere⟩)
  cases hlast : p.names.getLast? with
  | none =>
    exact absurd (isDirectory_of_names hcurrent hnul hsize (List.getLast?_eq_none_iff.1 hlast))
      hthere
  | some n =>
    have hshort : FileTree.isTooLong n = false := h.short n (List.mem_of_getLast? hlast)
    rcases FileTree.walk_cases_of_free (isDirectory_start hcurrent p) h.parent.short
        fun ms hms => h.parent.free _ (Path.mem_trail.2 ⟨ms, hms, rfl⟩) with
          ⟨here, hwalk, hdir⟩ | hmissing
    · have hplace : Path.step here n = p.placeOf w.current := by
        obtain ⟨ns, hns⟩ := List.getLast?_eq_some_iff.1 hlast
        rw [Path.parent, hns, List.dropLast_concat] at hwalk
        rw [FileTree.walk_eq_follow hwalk, Path.placeOf, hns, Path.follow_append]
        rfl
      have hstep : w.tree.find? (Path.step here n) = none := by
        refine (hplace ▸ h.free _ (Path.placeOf_mem_trail w.current p)).resolve_right
          fun hdirectory => hthere ?_
        exact isDirectory_of_walk_parent hnul hsize hlast hwalk hdir hshort hdirectory
      -- Out of a directory, `..` leads to a directory, so that a free place is not reached by it.
      have hup : n ≠ ".." := ne_dotdot_of_step hdir (by simp [hstep])
      have hlead : LeadsTo w p here n := ⟨hsize, hlast, hwalk, hdir, hup, hshort⟩
      rw [Path.step, if_neg hup] at hstep
      left
      rw [makeDirectory, doorway_of_leadsTo hlead]
      simp [hstep]
    · right; right
      constructor
      · have hmissing' : w.tree.walk (w.start p) p.names.dropLast = .error .missing := hmissing
        rw [makeDirectory, doorway, if_neg (by omega), hlast]
        simp only [hmissing']
      · intro hparent
        have hwalk := (walk_of_locate (locate_of_isDirectory hparent).1).2
        rw [show w.tree.walk (w.start p.parent) p.parent.names = .error .missing from hmissing]
          at hwalk
        cases hwalk

/-! ## Making all directories -/

/-- **Where making directories succeeds, the directory is there.** It may have been there before. -/
theorem isDirectory_of_makeUpTo {above : Nat} (hp : p.IsPlain) (hnul : p.holdsNul = false)
    (h : makeUpTo above w p = (u, .ok ())) : u.isDirectory p = .ok true := by
  cases above with
  | zero =>
    rw [makeUpTo] at h
    split at h <;> obtain ⟨rfl, hok⟩ := Prod.mk.inj h
    · exact isDirectory_of_makeDirectory hp hnul ‹_›
    · exact orThere_eq_ok_iff.1 hok
  | succ above =>
    rw [makeUpTo] at h
    split at h
    · obtain ⟨rfl, -⟩ := Prod.mk.inj h
      exact isDirectory_of_makeDirectory hp hnul ‹_›
    · split at h
      · cases h
      · split at h <;> obtain ⟨rfl, hok⟩ := Prod.mk.inj h
        · exact isDirectory_of_makeDirectory hp hnul ‹_›
        · exact orThere_eq_ok_iff.1 hok
    · obtain ⟨rfl, hok⟩ := Prod.mk.inj h
      exact orThere_eq_ok_iff.1 hok

/-- **Along an open path all directories are made,** if as many are as the path has names. The
induction is on the number of directories that may be made above. -/
theorem IsOpen.makeUpTo {above : Nat} (h : IsOpen w p)
    (hcurrent : w.tree.isDirectory w.current = true) (hp : p.IsPlain) (hnul : p.holdsNul = false)
    (hsize : Text.Utf8.size p.toString.toList ≤ FileTree.maxPath)
    (habove : p.names.length ≤ above) : ∃ u, makeUpTo above w p = (u, .ok ()) := by
  induction above generalizing p with
  | zero =>
    have hnames : p.names = [] := List.length_eq_zero_iff.1 (Nat.le_zero.1 habove)
    have hthere := isDirectory_of_names hcurrent hnul hsize hnames
    exact ⟨w, by simp only [Workspace.makeUpTo, makeDirectory_of_isDirectory hthere,
      orThere_eq_ok_iff.2 hthere]⟩
  | succ above ih =>
    rcases h.makeDirectory_cases hcurrent hnul hsize with ⟨u, hu⟩ | ⟨hu, hthere⟩ | ⟨hmissing, -⟩
    · exact ⟨u, by rw [Workspace.makeUpTo, hu]⟩
    · exact ⟨w, by simp only [Workspace.makeUpTo, hu, orThere_eq_ok_iff.2 hthere]⟩
    · have hnulAbove := Path.holdsNul_parent hnul
      have habove' : p.parent.names.length ≤ above := by
        rw [Path.parent, List.length_dropLast]
        omega
      obtain ⟨housed, hhoused⟩ :=
        ih h.parent hp.parent hnulAbove (Path.size_parent_le_maxPath hsize) habove'
      have hgains : Gains w housed (p.parent.trail w.current) := by
        have hgains := gains_makeUpTo above w p.parent
        rwa [hhoused] at hgains
      have hparent : housed.isDirectory p.parent = .ok true :=
        isDirectory_of_makeUpTo hp.parent hnulAbove hhoused
      have hcurrent' : housed.tree.isDirectory housed.current = true :=
        hgains.isDirectory (hgains.current ▸ hcurrent)
      -- The directories made above leave the path open, and its parent is no longer missing.
      rw [Workspace.makeUpTo, hmissing, hhoused]
      rcases (hgains.isOpen_iff.2 h).makeDirectory_cases hcurrent' hnul hsize with ⟨u, hu⟩
        | ⟨hu, hthere⟩ | ⟨-, hnot⟩
      · exact ⟨u, by simp only [hu]⟩
      · exact ⟨housed, by simp only [hu, orThere_eq_ok_iff.2 hthere]⟩
      · exact absurd hparent hnot

/-- **All directories of a path can be made just where it is open.** One direction is
`IsOpen.makeUpTo`; for the other one, what succeeds leaves directories, and these were free or
directories before. -/
theorem makeDirectories_eq_ok_iff (hcurrent : w.tree.isDirectory w.current = true)
    (hp : p.IsPlain) (hnul : p.holdsNul = false)
    (hsize : Text.Utf8.size p.toString.toList ≤ FileTree.maxPath) :
    (∃ u, w.makeDirectories p = (u, .ok ())) ↔ IsOpen w p := by
  constructor
  · rintro ⟨u, hu⟩
    have hgains := gains_makeDirectories w p
    rw [hu] at hgains
    exact hgains.isOpen_iff.1 (isOpen_of_isDirectory (isDirectory_of_makeUpTo hp hnul hu))
  · exact fun h => h.makeUpTo hcurrent hp hnul hsize (Nat.le_refl _)

end Workspace
end MemberHarvest
