import MemberHarvest.Proofs.FileTree.Replaced
import MemberHarvest.Proofs.Path.Written
import MemberHarvest.Proofs.Workspace.Searching

/-!
# Proofs/Workspace/Revisiting — looking at a workspace again after one file was written

Where the file of one place is another one than before (`Replaced`), every path but those to this
place leads to what it led to, and every directory is looked into as before. So a search is
repeated: it finds the same files and perhaps the new one, unless it comes upon the new one by a
path that is too long (`follow_repeats`, `glob_repeats`).
-/

namespace MemberHarvest.Workspace

open Outcome
open MemberHarvest.Path (Place)

variable {w u : Workspace} {d q : Place} {p f : Path}

/-- A workspace has a file at a place that held no directory before, and is as before otherwise. -/
structure Replaced (w u : Workspace) (d : Place) : Prop where
  tree : FileTree.Replaced w.tree u.tree d
  current : u.current = w.current
  host : u.host = w.host

/-- Putting a file at a place replaces what is there and nothing else. -/
theorem replaced_put (h : w.tree.admitsAt d = true) (bytes : Text.Bytes) :
    Replaced w { w with tree := w.tree.put d (.file bytes) } d :=
  ⟨FileTree.replaced_put h bytes, rfl, rfl⟩

namespace Replaced

theorem resolve_eq (h : Replaced w u d) (p : Path) : u.resolve p = w.resolve p := by
  rw [resolve, resolve, h.current]

theorem expandHome_eq (h : Replaced w u d) (p : Path) : u.expandHome p = w.expandHome p :=
  expandHome_congr h.host p

/-! ## Looking at paths -/

/-- **A path is located as before,** but for one that comes to the new file. The path led nowhere
before. -/
theorem locate_cases (h : Replaced w u d) (p : Path) : u.locate p = w.locate p ∨
    w.locate p = .error .missing ∧ (u.locate p = .ok d ∨ u.locate p = .error .notDirectory) := by
  rw [locate, locate, FileTree.locate, FileTree.locate, h.current]
  split
  · exact .inl rfl
  · exact h.tree.walk_cases _ _

theorem isDirectory_eq (h : Replaced w u d) (p : Path) : u.isDirectory p = w.isDirectory p := by
  rw [isDirectory, isDirectory, probe, probe]
  rcases h.locate_cases p with hp | ⟨hw, hu | hu⟩
  · rw [hp, funext h.tree.isDirectory_eq]
  · simp [hw, hu, h.tree.not_isDirectory]
  · simp [hw, hu]

theorem enter_eq (h : Replaced w u d) (p : Path) : u.enter p = w.enter p := by
  rw [enter, enter]
  rcases h.locate_cases p with hp | ⟨hw, hu | hu⟩
  · rw [hp]
  · rw [hw, hu]
  · rw [hw, hu]

/-- There is at a path what there was, or the new file. -/
theorem exists?_cases (h : Replaced w u d) (p : Path) : u.exists? p = w.exists? p ∨
    u.exists? p = .ok true ∧ p.placeOf u.current = d := by
  rw [exists?, exists?, probe, probe]
  split
  · exact .inl rfl
  rcases h.locate_cases p with hp | ⟨hw, hu | hu⟩
  · exact .inl (by rw [hp])
  · exact .inr ⟨by rw [hu], (FileTree.locate_eq_placeOf hu).symm⟩
  · exact .inl (by rw [hw, hu])

/-- **Every path but those to the new file leads to the file that it led to.** A path to the new
file led to nothing or to a file that is gone. -/
theorem readBytes_of_ne (h : Replaced w u d) (hp : p.placeOf w.current ≠ d) {bytes : Text.Bytes}
    (hbytes : w.readBytes p = .ok bytes) : u.readBytes p = .ok bytes := by
  obtain ⟨hnul, place, hplace, hnode⟩ := readBytes_eq_ok_iff.1 hbytes
  refine readBytes_eq_ok_iff.2 ⟨hnul, place, ?_, ?_⟩
  · rcases h.locate_cases p with hu | ⟨hw, -⟩
    · exact hu.trans hplace
    · cases hw.symm.trans hplace
  · rw [h.tree.other place ((FileTree.locate_eq_placeOf hplace).symm ▸ hp), hnode]

/-- The same paths are files, but for those of the place itself. -/
theorem isFile_iff_of_ne (h : Replaced w u d) (hp : p.placeOf w.current ≠ d) :
    u.isFile p = .ok true ↔ w.isFile p = .ok true := by
  simp only [isFile_eq_ok_true_iff]
  refine ⟨?_, fun hold => hold.imp fun _ => h.readBytes_of_ne hp⟩
  rintro ⟨bytes, hbytes⟩
  obtain ⟨hnul, place, hplace, hnode⟩ := readBytes_eq_ok_iff.1 hbytes
  have hne : place ≠ d := by
    rw [FileTree.locate_eq_placeOf hplace, h.current]
    exact hp
  refine ⟨bytes, readBytes_eq_ok_iff.2 ⟨hnul, place, ?_, (h.tree.other place hne) ▸ hnode⟩⟩
  rcases h.locate_cases p with hu | ⟨-, hu | hu⟩
  · exact hu.symm.trans hplace
  · exact absurd (Except.ok.inj (hplace.symm.trans hu)) hne
  · cases hplace.symm.trans hu

theorem isFile_of_isFile (h : Replaced w u d) (hp : w.isFile p = .ok true) :
    u.isFile p = .ok true := by
  obtain ⟨bytes, hbytes⟩ := isFile_eq_ok_true_iff.1 hp
  obtain ⟨hnul, place, hplace, hnode⟩ := readBytes_eq_ok_iff.1 hbytes
  rw [isFile, probe, hnul]
  rcases h.locate_cases p with hu | ⟨hw, -⟩
  · have hfile : u.tree.isFile place = true :=
      h.tree.isFile_of_isFile (FileTree.isFile_iff.2 ⟨bytes, hnode⟩)
    simp [hu, hplace, hfile]
  · cases hw.symm.trans hplace

/-! ## Searching -/

variable {inner directoriesOnly : Bool} {s : Glob.Step} {steps : List Glob.Step}
  {found : List Path} {e : Failure}

theorem mem_directoriesFrom_iff (h : Replaced w u d) :
    f ∈ u.directoriesFrom p ↔ f ∈ w.directoriesFrom p := by
  simp only [directoriesFrom, List.mem_map, FileTree.mem_directoriesFrom, h.current,
    h.tree.isDirectory_eq]

/-- **A step leads where it led before,** or to the new file, if it is the last one. Inner steps go
on from directories only, and the new file is none. -/
theorem stepsTo_cases (h : Replaced w u d) (hstep : u.StepsTo inner s p f) : w.StepsTo inner s p f ∨
    inner = false ∧ f.placeOf u.current = d := by
  cases s with
  | everywhere => exact .inl (h.mem_directoriesFrom_iff.1 hstep)
  | wild pattern =>
    obtain ⟨n, hn, rfl, hinner⟩ := hstep
    obtain ⟨hnode, hfits⟩ := List.mem_filter.1 hn
    by_cases hd : p.placeOf u.current ++ [n] = d
    · have hplace : (p.child n).placeOf u.current = d := (placeOf_child hnode).trans hd
      refine .inr ⟨?_, hplace⟩
      by_contra hin
      have hdir := hinner (by simpa using hin)
      rw [hplace, h.tree.not_isDirectory] at hdir
      cases hdir
    · left
      rw [FileTree.mem_names, h.tree.other _ hd, h.current] at hnode
      refine ⟨n, List.mem_filter.2 ⟨FileTree.mem_names.2 hnode, hfits⟩, rfl, fun hin => ?_⟩
      rw [← h.tree.isDirectory_eq, ← h.current]
      exact hinner hin
  | plain name =>
    obtain ⟨rfl, hthere⟩ := hstep
    cases inner with
    | true => exact .inl ⟨rfl, (h.isDirectory_eq _).symm.trans hthere⟩
    | false =>
      rcases h.exists?_cases (p.child name) with heq | ⟨-, hplace⟩
      · exact .inl ⟨rfl, heq.symm.trans hthere⟩
      · exact .inr ⟨rfl, hplace⟩

theorem stepsTo_of_stepsTo (h : Replaced w u d) (hstep : w.StepsTo inner s p f) :
    u.StepsTo inner s p f := by
  cases s with
  | everywhere => exact h.mem_directoriesFrom_iff.2 hstep
  | wild pattern =>
    obtain ⟨n, hn, rfl, hinner⟩ := hstep
    obtain ⟨hnode, hfits⟩ := List.mem_filter.1 hn
    have hnode' := h.tree.isSome_of_isSome (FileTree.mem_names.1 hnode)
    rw [← h.current] at hnode'
    refine ⟨n, List.mem_filter.2 ⟨FileTree.mem_names.2 hnode', hfits⟩, rfl, fun hin => ?_⟩
    rw [h.tree.isDirectory_eq, h.current]
    exact hinner hin
  | plain name =>
    obtain ⟨rfl, hthere⟩ := hstep
    cases inner with
    | true => exact ⟨rfl, (h.isDirectory_eq _).trans hthere⟩
    | false =>
      rcases h.exists?_cases (p.child name) with heq | ⟨hnew, -⟩
      · exact ⟨rfl, heq.trans hthere⟩
      · exact ⟨rfl, hnew⟩

/-- A step fails where it failed before. -/
theorem fails_of_fails (h : Replaced w u d) (he : u.Fails inner s p e) : w.Fails inner s p e := by
  cases s with
  | everywhere =>
    obtain ⟨f, hf, he⟩ := he
    exact ⟨f, h.mem_directoriesFrom_iff.1 hf, (h.enter_eq f).symm.trans he⟩
  | wild pattern => exact (h.enter_eq p).symm.trans he
  | plain name =>
    cases inner with
    | true => exact (h.isDirectory_eq _).symm.trans he
    | false =>
      rcases h.exists?_cases (p.child name) with heq | ⟨hnew, -⟩
      · exact heq.symm.trans he
      · cases hnew.symm.trans he

/-- **A search reaches what it reached before,** and perhaps the new file. The induction is on the
steps. -/
theorem reaches_cases (h : Replaced w u d) (hf : u.Reaches directoriesOnly steps p f) :
    w.Reaches directoriesOnly steps p f ∨ f.placeOf u.current = d := by
  induction steps generalizing p with
  | nil => exact .inl hf
  | cons s rest ih =>
    obtain ⟨q, hstep, hon⟩ := hf
    rcases h.stepsTo_cases hstep with hold | ⟨hlast, hplace⟩
    · exact (ih hon).imp_left fun hon => ⟨q, hold, hon⟩
    · obtain rfl : rest = [] := by simpa using (Bool.or_eq_false_iff.1 hlast).2
      exact .inr (hon.symm ▸ hplace)

/-- **What was reached is still reached.** The converse fails for the place itself only. -/
theorem reaches_of_reaches (h : Replaced w u d) (hf : w.Reaches directoriesOnly steps p f) :
    u.Reaches directoriesOnly steps p f := by
  induction steps generalizing p with
  | nil => exact hf
  | cons s rest ih =>
    obtain ⟨q, hstep, hon⟩ := hf
    exact ⟨q, h.stepsTo_of_stepsTo hstep, ih hon⟩

end Replaced

/-! ## Paths that are too long -/

variable {inner directoriesOnly : Bool} {s : Glob.Step} {steps : List Glob.Step}
  {n : String} {e : Failure}

theorem probe_of_nameTooLong (h : w.locate p = .error .nameTooLong) (test : Place → Bool) :
    w.probe test p ≠ .ok true := by
  rw [probe, h]
  split <;> simp

/-- Where a step does not fail, a path that it leads to is located or too long. -/
theorem isLong_of_stepsTo (hfails : ∀ e, ¬ w.Fails inner s p e) (hstep : w.StepsTo inner s p f)
    (hlocate : w.locate f = .error .nameTooLong) : f.IsLong := by
  cases s with
  | everywhere =>
    exact absurd ⟨f, hstep, enter_eq_error_iff.2 ⟨hlocate, rfl⟩⟩ (hfails (tooLong f))
  | plain name =>
    obtain ⟨rfl, hthere⟩ := hstep
    cases inner <;> exact absurd hthere (probe_of_nameTooLong hlocate _)
  | wild pattern =>
    obtain ⟨n, hn, rfl, -⟩ := hstep
    have hnode := FileTree.mem_names.1 (List.mem_filter.1 hn).1
    have hshort := (FileTree.isName_iff.1 (FileTree.isName_of_mem hnode n (by simp))).2.2.2.2.2
    by_contra hchild
    have hp : ¬ p.IsLong := fun hp => hchild (isLong_of_child hp)
    have hwalk : w.locate (p.child n) = (w.locate p).bind fun there => w.tree.walk there [n] := by
      rw [locate_of_not_isLong hchild, locate_of_not_isLong hp]
      exact FileTree.walk_append p.names [n]
    rw [hwalk] at hlocate
    cases hparent : w.locate p with
    | error cause =>
      rw [hparent] at hlocate
      obtain rfl := Except.error.inj hlocate
      exact hfails (tooLong p) (enter_eq_error_iff.2 ⟨hparent, rfl⟩)
    | ok there =>
      rw [hparent] at hlocate
      simp only [Except.bind, FileTree.walk, hshort, Bool.false_eq_true, if_false] at hlocate
      split at hlocate
      · simp at hlocate
      · split at hlocate <;> simp at hlocate

/-- The search of a glob reaches a place by a path that is too long. -/
structure Obscures (u : Workspace) (d : Place) (g : Glob) (base f : Path) : Prop where
  reaches : u.Reaches g.directoriesOnly g.steps base f
  placeOf_eq : f.placeOf u.current = d
  isLong : f.IsLong

namespace Replaced

variable {found : List Path} {base : Path} {pattern : String}

/-- Nothing that could be asked before is an error now. -/
theorem isFile_ne_error (h : Replaced w u d) {there : Bool} (hw : w.isFile p = .ok there) :
    u.isFile p ≠ .error e := by
  intro hu
  have hlong := (probe_eq_error_iff.1 hu).1.2
  rcases h.locate_cases p with heq | ⟨-, hnew | hnew⟩
  · rw [isFile, probe, ← heq, hlong] at hw
    rw [isFile, probe] at hu
    split at hw
    · rename_i hnul
      rw [if_pos hnul] at hu
      cases hu
    · cases hw
  · cases hlong.symm.trans hnew
  · cases hlong.symm.trans hnew

/-- **A search that came to an end does so again,** unless it reaches the new file by a path that is
too long. A path that is not too long causes no failure, and it is the only new one that can be
asked. -/
theorem follow_repeats (h : Replaced w u d)
    (hfound : w.follow directoriesOnly steps p = .ok found) :
    (∃ found', u.follow directoriesOnly steps p = .ok found') ∨
      ∃ f, Obscures u d ⟨steps, directoriesOnly⟩ p f ∧
        u.follow directoriesOnly steps p = .error (tooLong f) := by
  induction steps generalizing p found with
  | nil =>
    obtain ⟨there, hthere, -⟩ := bind_eq_ok_iff.1 hfound
    cases hu : u.isFile p with
    | error e => exact absurd hu (h.isFile_ne_error hthere)
    | ok there' =>
      left
      rw [follow, hu]
      cases there' <;> exact ⟨_, rfl⟩
  | cons s rest ih =>
    obtain ⟨hfails, hon⟩ := exists_follow_cons_eq_ok_iff.1 ⟨found, hfound⟩
    cases hu : u.follow directoriesOnly (s :: rest) p with
    | ok found' => exact .inl ⟨found', rfl⟩
    | error e =>
      right
      rcases of_follow_cons_eq_error hu with he | ⟨q, hq, he⟩
      · exact absurd (h.fails_of_fails he) (hfails e)
      rcases h.stepsTo_cases hq with hold | ⟨hlast, hplace⟩
      · obtain ⟨l, hl⟩ := hon q hold
        rcases ih hl with ⟨l', hl'⟩ | ⟨f, hf, herror⟩
        · cases he.symm.trans hl'
        · exact ⟨f, ⟨⟨q, hq, hf.reaches⟩, hf.placeOf_eq, hf.isLong⟩, he.symm.trans herror⟩
      · obtain rfl : rest = [] := by simpa using (Bool.or_eq_false_iff.1 hlast).2
        have hfile : u.isFile q = .error e := by
          rw [follow] at he
          rcases bind_eq_error_iff.1 he with hfile | ⟨there, -, hthere⟩
          · exact hfile
          · cases there <;> cases hthere
        obtain ⟨⟨-, hlocate⟩, rfl⟩ := probe_eq_error_iff.1 hfile
        have hlong := isLong_of_stepsTo (fun e he => hfails e (h.fails_of_fails he)) hq hlocate
        exact ⟨q, ⟨⟨q, hq, rfl⟩, hplace, hlong⟩, rfl⟩

/-- **A glob finds again what it found,** and perhaps the new file, unless it reaches that by a path
that is too long. -/
theorem glob_repeats (h : Replaced w u d) (hfound : w.glob base pattern = .ok found) :
    (∃ found', u.glob base pattern = .ok found' ∧ found'.Nodup ∧ found.Nodup ∧
        ∀ f, f.placeOf u.current ≠ d → (f ∈ found' ↔ f ∈ found)) ∨
      ∃ g f, Glob.ofString pattern = .ok g ∧ Obscures u d g base f ∧
        u.glob base pattern = .error (tooLong f) := by
  obtain ⟨g, hg, hrest⟩ := bind_eq_ok_iff.1 hfound
  obtain ⟨there, hthere, hrest⟩ := bind_eq_ok_iff.1 hrest
  have hthere' := (h.isDirectory_eq base).trans hthere
  cases there with
  | false =>
    obtain rfl : [] = found := Except.ok.inj hrest
    refine .inl ⟨[], ?_, List.nodup_nil, List.nodup_nil, fun _ _ => Iff.rfl⟩
    rw [glob, hg, hthere']
    rfl
  | true =>
    obtain ⟨hmem, hnodup⟩ := mem_and_nodup_of_glob hthere hg hfound
    have hfollow : ∃ l, w.follow g.directoriesOnly g.steps base = .ok l := by
      rw [glob_of_isDirectory hthere hg] at hfound
      exact exists_map_eq_ok_iff.1 ⟨_, hfound⟩
    obtain ⟨l, hl⟩ := hfollow
    have hglob := glob_of_isDirectory hthere' hg
    rcases h.follow_repeats hl with ⟨l', hl'⟩ | ⟨f, hf, herror⟩
    · rw [hl'] at hglob
      obtain ⟨hmem', hnodup'⟩ := mem_and_nodup_of_glob hthere' hg hglob
      refine .inl ⟨_, hglob, hnodup', hnodup, fun f hne => ?_⟩
      rw [hmem, hmem', h.isFile_iff_of_ne (h.current ▸ hne)]
      exact and_congr_left fun _ =>
        ⟨fun hf => (h.reaches_cases hf).resolve_right hne, h.reaches_of_reaches⟩
    · exact .inr ⟨g, f, hg, hf, by rw [hglob, herror]; rfl⟩

end Replaced
end MemberHarvest.Workspace
