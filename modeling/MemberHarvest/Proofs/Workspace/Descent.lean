import MemberHarvest.Proofs.Path.Components
import MemberHarvest.Proofs.Workspace.Searching

/-!
# Proofs/Workspace/Descent — searches that go down only

Without a `..` among its names, a glob never leads out of the directory that a search begins in. The
search descends to files below it, and the names by which it does so, joined by slashes, are a text
that the names of the glob stand for when they are joined and read as a pattern
(`exists_of_reaches`). Reading a glob as a pattern is possible because two asterisks are always a
component by themselves (`isWhole_of_ofString`).
-/

namespace MemberHarvest

open Outcome
open MemberHarvest.Path (Place)

/-! ## Globs as patterns -/

namespace Glob

variable {cs : List Char} {g : Glob}

/-- **In a glob, two asterisks are a component by themselves.** Any other use of them is refused
when the pattern is read. -/
theorem isWhole_of_ofString (h : ofString (String.ofList cs) = .ok g) : Wildcard.IsWhole cs := by
  obtain ⟨-, -, hsteps, -⟩ := ofString_ofList_eq_ok_iff.1 h
  intro piece hpiece
  by_cases hname : piece ≠ [] ∧ piece ≠ ['.']
  · have hnames := exists_mapM_eq_ok_iff.1 ⟨_, mapM_eq_ok_iff.2 hsteps⟩
    obtain ⟨s, hs⟩ := hnames _ (Path.ofList_mem_namesOf_iff.2 ⟨hpiece, hname⟩)
    rcases Step.ofName_eq_ok_iff.1 hs with ⟨heq, -⟩ | ⟨hstars, -⟩
    · exact .inl (String.ofList_inj.1 heq)
    · rw [String.toList_ofList] at hstars
      exact .inr hstars
  · right
    rw [not_and_or, not_not, not_not] at hname
    rcases hname with rfl | rfl <;> decide

end Glob

namespace Workspace

variable {w : Workspace} {p q f : Path} {place : Place} {name : String}
  {names : List String} {s : Glob.Step} {steps : List Glob.Step} {inner directoriesOnly : Bool}

/-! ## One step -/

/-- A name without wildcards stands for itself. -/
theorem admits_self_of_not_isWild (h : Glob.isWild name = false) :
    Wildcard.admits name.toList name.toList = true := by
  refine (Wildcard.admits_iff_of_forall fun c hc => ?_).2 rfl
  rw [Glob.isWild, List.any_eq_false] at h
  have hplain := h c hc
  simp only [Bool.or_eq_true, beq_iff_eq, not_or] at hplain
  exact hplain.1

/-- **A step down leads through any directories, or through a name that the name of the step stands
for.** The path that is spelled and the place that it leads to grow by the same names. -/
theorem StartsAt.of_stepsTo (h : StartsAt w p place) (hs : Glob.Step.ofName name = .ok s)
    (hbracket : '[' ∉ name.toList) (hup : name ≠ "..") (hq : w.StepsTo inner s p q) :
    (name = "**" ∧ ∃ ds, q = ⟨p.anchor, p.names ++ ds⟩ ∧ StartsAt w q (place ++ ds)) ∨
      ∃ n, Wildcard.admits name.toList n.toList = true ∧ q = p.child n ∧
        q.placeOf w.current = place ++ [n] ∧ (inner = true → StartsAt w q (place ++ [n])) := by
  rcases Glob.Step.ofName_eq_ok_iff.1 hs with ⟨rfl, rfl⟩ | ⟨-, rfl⟩
  · obtain ⟨_, ⟨ds, rfl⟩, hdir, rfl⟩ := h.mem_directoriesFrom.1 hq
    have hnode := FileTree.isSome_of_isDirectory hdir
    have hpd : place <+: place ++ ds := List.prefix_append place ds
    refine .inl ⟨rfl, ds, ?_, h.holdsNul_spelled hnode, h.walk_spelled hpd hnode, hdir⟩
    rw [spelled, h.placeOf_eq, List.drop_left]
  right
  split at hq
  · obtain ⟨n, hn, rfl, hdir⟩ := hq
    obtain ⟨hmem, hfits⟩ := List.mem_filter.1 hn
    have hplace := h.placeOf_eq ▸ placeOf_child hmem
    have hadmits := Wildcard.admits_of_admits_atoms ((Pattern.fits_ofChars_iff hbracket).1 hfits)
    exact ⟨n, hadmits, rfl, hplace, fun hinner => h.into (hplace ▸ hdir hinner)⟩
  · rename_i hwild
    obtain ⟨rfl, hthere⟩ := hq
    have hplace : (p.child name).placeOf w.current = place ++ [name] := by
      rw [Path.placeOf_eq_append (by simp [Path.child]) hup, Path.parent_child, h.placeOf_eq]
    refine ⟨name, admits_self_of_not_isWild (Bool.not_eq_true _ ▸ hwild), rfl, hplace, ?_⟩
    rintro rfl
    exact hplace ▸ startsAt_of_isDirectory hthere

/-! ## All steps -/

/-- The place of a file is that of a file. -/
theorem isFile_placeOf (h : w.isFile f = .ok true) :
    w.tree.isFile (f.placeOf w.current) = true := by
  obtain ⟨bytes, hbytes⟩ := isFile_eq_ok_true_iff.1 h
  obtain ⟨-, q, hq, hnode⟩ := readBytes_eq_ok_iff.1 hbytes
  rw [← FileTree.locate_eq_placeOf hq, FileTree.isFile, hnode]

/-- No path to a directory names a file. -/
theorem StartsAt.isFile_ne (h : StartsAt w f place) : w.isFile f ≠ .ok true := by
  intro hfile
  have hnode := isFile_placeOf hfile
  rw [h.placeOf_eq, FileTree.isFile, FileTree.isDirectory_iff.1 h.isDirectory] at hnode
  cases hnode

/-- **A search that only goes down finds files below its directory,** by names that the names of the
glob stand for. The induction is on the steps, with `StartsAt.of_stepsTo` for each of them. -/
theorem StartsAt.exists_of_reaches (h : StartsAt w p place)
    (hsteps : List.Forall₂ (fun name s => Glob.Step.ofName name = .ok s) names steps)
    (hbracket : ∀ name ∈ names, '[' ∉ name.toList) (hup : ".." ∉ names)
    (hf : w.Reaches directoriesOnly steps p f) (hfile : w.isFile f = .ok true) :
    ∃ ns, ns ≠ [] ∧ f = ⟨p.anchor, p.names ++ ns⟩ ∧ f.placeOf w.current = place ++ ns ∧
      Wildcard.admits ("/".intercalate names).toList ("/".intercalate ns).toList = true := by
  induction hsteps generalizing p place with
  | nil =>
    obtain rfl : f = p := hf
    exact absurd hfile h.isFile_ne
  | @cons name s names steps hs hsteps ih =>
    obtain ⟨hfirst, hothers⟩ := List.forall_mem_cons.1 hbracket
    rw [List.mem_cons, not_or] at hup
    obtain ⟨q, hq, hf⟩ := hf
    have hq := h.of_stepsTo hs hfirst (Ne.symm hup.1) hq
    cases hsteps with
    | nil =>
      obtain rfl : f = q := hf
      rcases hq with ⟨-, ds, rfl, hdir⟩ | ⟨n, hn, rfl, hplace, -⟩
      · exact absurd hfile hdir.isFile_ne
      · exact ⟨[n], by simp, rfl, hplace, by simpa using hn⟩
    | cons hs' hsteps =>
      rcases hq with ⟨rfl, ds, rfl, hdir⟩ | ⟨n, hn, rfl, -, hdir⟩
      · obtain ⟨ns, hne, rfl, hplace, hadmits⟩ := ih hdir hothers hup.2 hf
        refine ⟨ds ++ ns, by simp [hne], by simp, by rw [hplace, List.append_assoc], ?_⟩
        rw [Path.toList_intercalate_cons "**" (by simp)]
        refine Wildcard.admits_anyDirectories_iff.2 ?_
        cases ds with
        | nil => exact .inl hadmits
        | cons d ds =>
          rw [Path.toList_intercalate_append (by simp) hne]
          exact .inr ⟨_, List.suffix_append _ _, hadmits⟩
      · obtain ⟨ns, hne, rfl, hplace, hadmits⟩ := ih (hdir (by simp)) hothers hup.2 hf
        refine ⟨n :: ns, by simp, by simp [Path.child], by simp [hplace], ?_⟩
        rw [Path.toList_intercalate_cons name (by simp), Path.toList_intercalate_cons n hne]
        exact Wildcard.admits_append_slash hn hadmits

end Workspace
end MemberHarvest
