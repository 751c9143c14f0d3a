import MemberHarvest.Proofs.FileTree.Below

/-!
# Proofs/FileTree/Replaced — a tree with one other file

A tree in which a file was put at a place differs from the one before in this file alone
(`Replaced`). The directories are the same, so that walks go as before unless they end at the new
file or want to go on from it (`walk_cases`). Putting a file a second time changes nothing
(`put_put_file`).
-/

namespace MemberHarvest.FileTree

open MemberHarvest.Path (Place)

variable {t u : FileTree} {d p q here : Place} {ns : List String}

theorem ext_nodes (h : t.nodes = u.nodes) : t = u := by
  cases t
  cases u
  cases h
  rfl

/-! ## Putting and removing exactly -/

/-- **Putting a node twice is putting it once.** So a document that is saved twice leaves one
tree. -/
theorem put_put_file (t : FileTree) (p : Place) (bytes : Text.Bytes) :
    (t.put p (.file bytes)).put p (.file bytes) = t.put p (.file bytes) := by
  cases h : t.admitsAt p with
  | false => rw [put_of_not_admitsAt h, put_of_not_admitsAt h]
  | true =>
    cases h' : (t.put p (.file bytes)).admitsAt p with
    | false => rw [put_of_not_admitsAt h']
    | true =>
      refine ext_nodes ?_
      rw [put, dif_pos h']
      simp [put, h]

/-- **Removing a node that was put at a free place restores the tree.** The tree is the same one,
and not only alike at every place. -/
theorem remove_put (h : t.find? p = none) (n : Node) : (t.put p n).remove p = t := by
  have hfree : ∀ e ∈ t.nodes, ¬ p <+: e.1 := by
    intro e he hpe
    have hnode := (find?_eq_some_iff_mem (t.named e he).1).2 he
    rw [find?_eq_none_below h hpe] at hnode
    exact nomatch hnode
  have hkept : t.nodes.filter (fun e => !p.isPrefixOf e.1) = t.nodes := by
    refine List.filter_eq_self.2 fun e he => ?_
    rw [Bool.not_eq_true', ← Bool.not_eq_true, List.isPrefixOf_iff_prefix]
    exact hfree e he
  refine ext_nodes ?_
  cases ha : t.admitsAt p with
  | false =>
    rw [put_of_not_admitsAt ha]
    exact hkept
  | true =>
    have hother : t.nodes.filter (fun e => e.1 != p) = t.nodes := by
      refine List.filter_eq_self.2 fun e he => bne_iff_ne.2 ?_
      rintro rfl
      exact hfree e he List.prefix_rfl
    simp [put, ha, remove, hother, hkept]

/-! ## One other file -/

/-- A tree has a file at a place that held no directory before, and is as before everywhere else. -/
structure Replaced (t u : FileTree) (d : Place) : Prop where
  other : ∀ q, q ≠ d → u.find? q = t.find? q
  isFile : u.isFile d = true
  free : t.isDirectory d = false

/-- **A file that is put where no directory stands replaces what was there.** All other places hold
what they held. -/
theorem replaced_put (h : t.admitsAt d = true) (bytes : Text.Bytes) :
    Replaced t (t.put d (.file bytes)) d where
  other q hq := find?_put_of_ne hq _
  isFile := isFile_iff.2 ⟨bytes, by rw [find?_put h, if_pos rfl]⟩
  free := by
    simp only [admitsAt, Bool.and_eq_true, Bool.not_eq_true'] at h
    exact h.2

namespace Replaced

theorem not_isDirectory (h : Replaced t u d) : u.isDirectory d = false := by
  obtain ⟨bytes, hnode⟩ := isFile_iff.1 h.isFile
  rw [isDirectory, hnode]
  rfl

/-- **The directories are the same.** A new file takes the place of a file or of nothing. -/
theorem isDirectory_eq (h : Replaced t u d) (q : Place) : u.isDirectory q = t.isDirectory q := by
  by_cases hq : q = d
  · rw [hq, h.not_isDirectory, h.free]
  · rw [isDirectory, isDirectory, h.other q hq]

theorem isFile_of_isFile (h : Replaced t u d) (hq : t.isFile q = true) : u.isFile q = true := by
  by_cases hqd : q = d
  · rw [hqd, h.isFile]
  · rwa [FileTree.isFile, h.other q hqd]

theorem isSome_of_isSome (h : Replaced t u d) (hq : (t.find? q).isSome = true) :
    (u.find? q).isSome = true := by
  rcases isDirectory_or_isFile hq with hdir | hfile
  · exact isSome_of_isDirectory ((h.isDirectory_eq q).trans hdir)
  · exact isSome_of_isFile (h.isFile_of_isFile hfile)

/-- **A walk goes as before,** but for one that comes to the new file: there it ends, or wants to go
on. So a path that led anywhere before still leads there, and only a missing one can be affected. -/
theorem walk_cases (h : Replaced t u d) (here : Place) (ns : List String) :
    u.walk here ns = t.walk here ns ∨
    t.walk here ns = .error .missing ∧
      (u.walk here ns = .ok d ∨ u.walk here ns = .error .notDirectory) := by
  induction ns generalizing here with
  | nil => exact .inl rfl
  | cons n ns ih =>
    simp only [walk, h.isDirectory_eq here]
    split
    · exact .inl rfl
    split
    · exact .inl rfl
    by_cases hd : Path.step here n = d
    · have hnew : (u.find? d).isSome = true := isSome_of_isFile h.isFile
      have hstop : ∀ {v : FileTree}, v.isDirectory d = false →
          v.walk d ns = if ns = [] then .ok d else .error .notDirectory := by
        intro v hv
        cases ns with
        | nil => simp [walk]
        | cons m ms => simp [walk, hv]
      rw [hd, if_pos hnew, hstop h.not_isDirectory, hstop h.free]
      cases hold : (t.find? d).isSome with
      | true => exact .inl (if_pos rfl).symm
      | false =>
        refine .inr ⟨if_neg (by simp), ?_⟩
        split
        · exact .inl rfl
        · exact .inr rfl
    · rw [h.other _ hd]
      split
      · exact ih _
      · exact .inl rfl

end Replaced

end MemberHarvest.FileTree
