import Mathlib.Data.List.Nodup
import Mathlib.Data.List.Perm.Subperm
import MemberHarvest.Proofs.Path.Written
import MemberHarvest.Proofs.Text.Decimal
import MemberHarvest.Workspace.Saving

/-!
# Proofs/Workspace/Draft — a draft's name is free

Drafts with different marks have different names (`draftName_injective`), and more marks are tried
than the tree has nodes. So one of the names is free, and the mark that is taken has it
(`find?_draft`).
-/

namespace MemberHarvest

theorem Text.natOfDigits_replicate_append (k : Nat) (cs : List Char) :
    natOfDigits (List.replicate k '0' ++ cs) = natOfDigits cs := by
  induction k with
  | zero => rfl
  | succ k ih => rw [List.replicate_succ, List.cons_append]; exact ih

/-- A padded number still denotes the number. -/
theorem Text.natOfDigits_padded (width n : Nat) : natOfDigits (padded width n) = n := by
  rw [padded, natOfDigits_replicate_append, natOfDigits_decimal]

namespace Workspace

theorem draftMark_injective {i j : Nat} (h : draftMark i = draftMark j) : i = j := by
  rw [← Text.natOfDigits_padded 8 i, ← Text.natOfDigits_padded 8 j]
  exact congrArg Text.natOfDigits (String.ofList_injective h)

theorem draftName_injective {name mark mark' : String}
    (h : draftName name mark = draftName name mark') : mark = mark' := by
  rw [draftName, draftName] at h
  simpa [← String.toList_inj] using h

/-- The places of the drafts of a name, in the order in which they are tried. -/
def draftPlaces (here : Path.Place) (name : String) (count : Nat) : List Path.Place :=
  (List.range count).map fun i => here ++ [draftName name (draftMark i)]

/-- **No two drafts are at one place.** So among one more draft than there are nodes, one is
free. -/
theorem nodup_draftPlaces (here : Path.Place) (name : String) (count : Nat) :
    (draftPlaces here name count).Nodup := by
  refine List.Nodup.map (fun i j h => ?_) List.nodup_range
  exact draftMark_injective (draftName_injective (by simpa using h))

/-- Of more drafts than the tree has nodes, some one is free. -/
theorem exists_free (t : FileTree) (here : Path.Place) (name : String) :
    ∃ i ∈ List.range (t.nodes.length + 1),
      (t.find? (here ++ [draftName name (draftMark i)])).isNone = true := by
  by_contra hall
  have hsub : draftPlaces here name (t.nodes.length + 1) ⊆ t.nodes.map (·.1) := by
    intro q hq
    obtain ⟨i, hi, rfl⟩ := List.mem_map.1 hq
    have hsome : (t.find? (here ++ [draftName name (draftMark i)])).isSome = true := by
      rw [Option.isSome_iff_ne_none]
      exact fun h => hall ⟨i, hi, Option.isNone_iff_eq_none.2 h⟩
    obtain ⟨n, hn⟩ := Option.isSome_iff_exists.1 hsome
    rw [FileTree.find?, if_neg (by simp)] at hn
    exact List.mem_map.2 ⟨_, FileTree.mem_of_lookup hn, rfl⟩
  have hlen := ((nodup_draftPlaces here name _).subperm hsub).length_le
  simp only [draftPlaces, List.length_map, List.length_range] at hlen
  omega

/-- **The draft that is taken is free.** A draft never overwrites anything. -/
theorem find?_draft (t : FileTree) (here : Path.Place) (name : String) :
    t.find? (here ++ [draftName name (freshMark t here name)]) = none := by
  obtain ⟨i, hi, hfree⟩ := exists_free t here name
  rw [freshMark]
  cases hf : (List.range (t.nodes.length + 1)).find? fun i =>
      (t.find? (here ++ [draftName name (draftMark i)])).isNone with
  | none => exact absurd hfree (List.find?_eq_none.1 hf i hi)
  | some j => simpa [hf] using List.find?_some hf

/-- The first mark is taken where its draft is free. -/
theorem freshMark_of_free {t : FileTree} {here : Path.Place} {name : String}
    (h : t.find? (here ++ [draftName name (draftMark 0)]) = none) :
    freshMark t here name = draftMark 0 := by
  simp only [freshMark, List.range_succ_eq_map, List.find?_cons, h,
    Option.isNone_none, Option.getD_some]

/-! ## The length of a draft's name -/

/-- A draft's name takes six bytes beside the name and the mark. -/
theorem size_draftName (name mark : String) : Text.Utf8.size (draftName name mark).toList =
    Text.Utf8.size name.toList + Text.Utf8.size mark.toList + 6 := by
  have hdot : Text.Utf8.size ".".toList = 1 := by decide
  have hend : Text.Utf8.size ".tmp".toList = 4 := by decide
  simp only [draftName, String.toList_append, Text.Utf8.size_append, hdot, hend]
  omega

/-- So its path takes seven bytes beside these and the directory. -/
theorem size_draftPath {parent : Path} (h : parent.anchor ≠ .network) (here : Path.Place)
    (name mark : String) :
    Text.Utf8.size (draftPath parent here name mark).toList =
      Path.namesSize here + Text.Utf8.size name.toList + Text.Utf8.size mark.toList + 7 := by
  have hslash : Text.Utf8.size Path.Anchor.root.text.toList = 1 := by decide
  have hsize := Path.size_toString (p := ⟨.root, here ++ [draftName name mark]⟩) (by simp)
  rw [Path.namesSize_append, Path.namesSize_singleton, size_draftName, hslash] at hsize
  simp only [draftPath, if_neg h]
  omega

end Workspace
end MemberHarvest
