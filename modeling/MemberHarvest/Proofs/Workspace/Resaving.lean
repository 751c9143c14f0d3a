import Mathlib.Data.List.Range
import MemberHarvest.Proofs.Workspace.Receiving
import MemberHarvest.Proofs.Workspace.Revisiting

/-!
# Proofs/Workspace/Resaving — saving a file again changes nothing

Where the directory is there, a file that is saved is put into the tree at its place, and nothing
else happens (`save_eq_ok`). The draft has the same name the next time, and as much room, so that
the same file is saved again and the tree stays what it is (`save_again`).
-/

namespace MemberHarvest.Workspace

open MemberHarvest.Path (Place)

variable {w u : Workspace} {p : Path} {here : Place} {n : String} {bytes : Text.Bytes}

/-! ## What is saved -/

/-- Where there is no directory at the place, the path is none. -/
theorem LeadsTo.isDirectory_eq (h : LeadsTo w p here n)
    (hfree : w.tree.isDirectory (here ++ [n]) = false) (hnul : p.holdsNul = false) :
    w.isDirectory p = .ok false := by
  have hstep : w.locate p = w.tree.walk here [n] :=
    locate_eq_walk_singleton h.size_le h.getLast? h.walk
  have hplace : Path.step here n = here ++ [n] := if_neg h.ne_dotdot
  rw [Workspace.isDirectory, probe, hnul, hstep, FileTree.walk, h.isDirectory,
    h.not_isTooLong, hplace]
  cases hnode : (w.tree.find? (here ++ [n])).isSome with
  | true => simp [FileTree.walk, hfree]
  | false => simp

/-- **A draft that takes its place leaves no other trace.** It is put at a free place and removed
again from there. -/
theorem promote_eq_ok {draft : Place} (hfree : w.tree.find? draft = none)
    (h : promote { w with tree := w.tree.put draft (.file bytes) } draft bytes p = .ok u) :
    ∃ here n, LeadsTo w p here n ∧ w.tree.isDirectory (here ++ [n]) = false ∧
      u = { w with tree := w.tree.put (here ++ [n]) (.file bytes) } := by
  rw [promote] at h
  split at h
  · simp at h
  · simp at h
  rename_i here n hdoor
  split at h
  · simp at h
  rename_i hdir
  obtain rfl := Except.ok.inj h
  have hdirs := FileTree.isDirectory_put_file hfree bytes
  refine ⟨here, n, (leadsTo_of_doorway hdoor).mono rfl fun q hq => ?_, ?_, ?_⟩
  · rwa [hdirs] at hq
  · rw [← hdirs]
    simpa using hdir
  · rw [FileTree.remove_put hfree]

/-- **A file is saved in its place,** where its directory is there, and it has room for a draft.
Whether there is a file before makes no difference. -/
theorem save_eq_ok (hparent : w.isDirectory p.parent = .ok true)
    (h : w.save p bytes = (u, .ok ())) :
    Receives w p ∧ p.placeOf w.current = p.parent.placeOf w.current ++ [p.name] ∧
      u = { w with tree := w.tree.put (p.placeOf w.current) (.file bytes) } := by
  rw [save] at h
  split at h
  · simp at h
  rw [makeDirectories_of_isDirectory hparent] at h
  simp only [(locate_of_isDirectory hparent).1] at h
  split at h
  · simp at h
  rename_i hnul
  rw [Bool.not_eq_true] at hnul
  rw [saveIn] at h
  simp only at h
  split at h
  · simp at h
  rename_i hroom
  split at h
  · rename_i saved hpromote
    obtain ⟨rfl, -⟩ := Prod.mk.inj h
    obtain ⟨here, n, hlead, hfree, hu⟩ := promote_eq_ok (find?_draft w.tree _ p.name) hpromote
    have hname : p.name = n := Path.name_eq hlead.getLast?
    have hplace : p.placeOf w.current = here ++ [n] := hlead.placeOf_eq
    rw [Bool.or_eq_true, decide_eq_true_eq, not_or, Bool.not_eq_true, Nat.not_lt] at hroom
    exact ⟨⟨hnul, hparent, hlead.isDirectory_eq hfree hnul, hroom.1, hroom.2⟩,
      by rw [hplace, hlead.here_eq, hname], by rw [hplace, hu]⟩
  · simp at h

/-! ## The same draft -/

/-- The first number with a property is the same in all ranges that reach it. -/
theorem find?_range_eq {P : Nat → Bool} {m k : Nat} (hm : ∃ i ∈ List.range m, P i = true)
    (hk : ∃ i ∈ List.range k, P i = true) : (List.range m).find? P = (List.range k).find? P := by
  obtain ⟨i, hi⟩ := Option.isSome_iff_exists.1 (List.find?_isSome.2 hm)
  obtain ⟨j, hj⟩ := Option.isSome_iff_exists.1 (List.find?_isSome.2 hk)
  obtain ⟨hPi, -, hbefore⟩ := List.find?_range_eq_some.1 hi
  obtain ⟨hPj, -, hbefore'⟩ := List.find?_range_eq_some.1 hj
  have hij : i = j := by
    rcases Nat.lt_trichotomy i j with h | h | h
    · simpa [hPi] using hbefore' i h
    · exact h
    · simpa [hPj] using hbefore j h
  rw [hi, hj, hij]

/-- A draft has another name than its destination. -/
theorem draftName_ne (name mark : String) : draftName name mark ≠ name := by
  intro h
  have hlength := congrArg (fun s : String => s.toList.length) h
  simp only [draftName, String.toList_append, List.length_append] at hlength
  have hdot : ".".toList.length = 1 := by decide
  omega

/-- **Writing a file leaves the marks of its drafts free that were free.** The marks are looked for
beside the file, where only the file itself has changed. -/
theorem freshMark_eq {t t' : FileTree} {name : String}
    (h : FileTree.Replaced t t' (here ++ [name])) :
    freshMark t' here name = freshMark t here name := by
  have hfree : (fun i => (t'.find? (here ++ [draftName name (draftMark i)])).isNone) =
      fun i => (t.find? (here ++ [draftName name (draftMark i)])).isNone := by
    funext i
    rw [h.other]
    simpa using draftName_ne name _
  have hsome (v : FileTree) : ∃ i ∈ List.range (v.nodes.length + 1),
      (v.find? (here ++ [draftName name (draftMark i)])).isNone = true := by
    obtain ⟨i, hi, hnone⟩ := exists_free v here name
    exact ⟨i, hi, hnone⟩
  have hsame := hsome t'
  simp only [congrFun hfree] at hsame
  rw [freshMark, freshMark]
  simp only [hfree]
  rw [find?_range_eq hsame (hsome t)]

/-- **A file that was saved is saved again,** and nothing changes. The second draft is the first
one's, and the same bytes are put in the same place. -/
theorem save_again (hparent : w.isDirectory p.parent = .ok true)
    (h : w.save p bytes = (u, .ok ())) :
    u.save p bytes = (u, .ok ()) := by
  obtain ⟨hreceives, hplace, hu⟩ := save_eq_ok hparent h
  cases hadmits : w.tree.admitsAt (p.placeOf w.current) with
  | false =>
    have hsame : u = w := by rw [hu, FileTree.put_of_not_admitsAt hadmits]
    rwa [hsame] at h ⊢
  | true =>
    have hreplaced : w.Replaced u (p.placeOf w.current) := hu ▸ replaced_put hadmits bytes
    have hmark : u.markFor p = w.markFor p := by
      rw [markFor, markFor, hreplaced.current]
      exact freshMark_eq (hplace ▸ hreplaced.tree)
    have hreceives' : Receives u p :=
      { holdsNul := hreceives.holdsNul
        parent := (hreplaced.isDirectory_eq _).trans hparent
        isDirectory := (hreplaced.isDirectory_eq _).trans hreceives.isDirectory
        draftName := hmark ▸ hreceives.draftName
        draftPath := by rw [hmark, hreplaced.current]; exact hreceives.draftPath }
    obtain ⟨v, hv⟩ := save_of_receives hreceives' bytes
    obtain ⟨-, -, hv'⟩ := save_eq_ok hreceives'.parent hv
    have hput : u.tree.put (p.placeOf u.current) (.file bytes) = u.tree := by
      rw [hu]
      exact FileTree.put_put_file _ _ _
    rw [hv, hv', hput]

/-- **A place that a draft has room beside is not too far away from the root.** The absolute path of
a draft is longer than that of its file, and it is looked at. -/
theorem Receives.not_isLong (h : Receives w p)
    (hplace : p.placeOf w.current = p.parent.placeOf w.current ++ [p.name]) :
    ¬ (Path.ofPlace (p.placeOf w.current)).IsLong := by
  have hroom := h.draftPath
  rw [Workspace.draftPath] at hroom
  generalize hanchor : (if p.parent.anchor = .network then Path.Anchor.network else .root) = anchor
    at hroom
  generalize p.parent.placeOf w.current = here at hroom hplace
  have hdraft :=
    Path.size_toString (p := ⟨anchor, here ++ [Workspace.draftName p.name (w.markFor p)]⟩) (by simp)
  have hdestination :=
    Path.size_toString (p := .ofPlace (here ++ [p.name])) (by simp [Path.ofPlace])
  have hslash : Text.Utf8.size Path.Anchor.root.text.toList = 1 := by decide
  have hstart : 1 ≤ Text.Utf8.size anchor.text.toList := by
    rw [← hanchor]
    split <;> decide
  have hname : Text.Utf8.size p.name.toList ≤
      Text.Utf8.size (Workspace.draftName p.name (w.markFor p)).toList := by
    simp only [Workspace.draftName, String.toList_append, Text.Utf8.size_append]
    omega
  simp only [Path.ofPlace, Path.namesSize_append, Path.namesSize_singleton, hslash]
    at hdraft hdestination
  rw [hplace, Path.IsLong, Path.ofPlace]
  omega

end MemberHarvest.Workspace
