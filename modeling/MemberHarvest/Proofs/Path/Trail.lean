import Mathlib.Data.List.Infix
import MemberHarvest.Path.Resolve

/-!
# Proofs/Path/Trail — the places that a path goes through

A path as it is written goes through the place of each of its beginnings (`trail`), a `..` included.
A path that was read from a text has plain names: none is empty or `.`, and none holds a slash.
-/

namespace MemberHarvest

/-- A character other than a separator goes to one of the pieces. -/
theorem Text.exists_mem_splitOnP {p : Char → Bool} {cs : List Char} {c : Char} (hmem : c ∈ cs)
    (hc : p c = false) :
    ∃ piece ∈ cs.splitOnP p, c ∈ piece := by
  obtain ⟨as, bs, rfl⟩ := List.append_of_mem hmem
  induction as with
  | nil =>
    obtain ⟨piece, pieces, hpieces⟩ := List.exists_cons_of_ne_nil (List.splitOnP_ne_nil p bs)
    exact ⟨c :: piece, by simp [List.splitOnP_cons_eq_if_modifyHead, hc, hpieces],
      List.mem_cons_self⟩
  | cons a as ih =>
    obtain ⟨piece, hpiece, hmem⟩ := ih (by simp)
    rw [List.cons_append, List.splitOnP_cons_eq_if_modifyHead]
    split
    · exact ⟨piece, List.mem_cons_of_mem _ hpiece, hmem⟩
    · obtain ⟨first, pieces, hpieces⟩ :=
        List.exists_cons_of_ne_nil (List.splitOnP_ne_nil p (as ++ c :: bs))
      rw [hpieces] at hpiece ⊢
      rcases List.mem_cons.1 hpiece with rfl | hpiece
      · exact ⟨a :: piece, List.mem_cons_self, List.mem_cons_of_mem _ hmem⟩
      · exact ⟨piece, List.mem_cons_of_mem _ hpiece, hmem⟩

namespace Path

/-- The places of a path's beginnings, from where it starts to the place that it names. -/
def trail (cwd : Place) (p : Path) : List Place :=
  p.names.inits.map fun ns => placeOf cwd ⟨p.anchor, ns⟩

variable {cwd q : Place} {p : Path}

/-- **A place is on the trail of a path if the path comes by it,** that is, if some beginning of its
names leads there. -/
theorem mem_trail : q ∈ p.trail cwd ↔ ∃ ns, ns <+: p.names ∧ placeOf cwd ⟨p.anchor, ns⟩ = q := by
  simp only [trail, List.mem_map, List.mem_inits]

theorem placeOf_mem_trail (cwd : Place) (p : Path) : p.placeOf cwd ∈ p.trail cwd :=
  mem_trail.2 ⟨p.names, List.prefix_rfl, rfl⟩

/-- The trail of a path goes on from the trail of its parent. -/
theorem mem_trail_of_parent (h : q ∈ p.parent.trail cwd) : q ∈ p.trail cwd := by
  obtain ⟨ns, hns, hq⟩ := mem_trail.1 h
  exact mem_trail.2 ⟨ns, hns.trans (List.dropLast_prefix _), hq⟩

/-- The name of a path is the last one of its names. -/
theorem name_eq {n : String} (h : p.names.getLast? = some n) : p.name = n := by
  rw [name, h, Option.getD_some]

/-- A last name other than `..` leads from the parent's place into it. -/
theorem placeOf_eq_append {n : String} (h : p.names.getLast? = some n)
    (hn : n ≠ "..") (cwd : Place) :
    p.placeOf cwd = p.parent.placeOf cwd ++ [n] := by
  obtain ⟨ns, hns⟩ := List.getLast?_eq_some_iff.1 h
  have hstart : (if p.parent.isAbsolute then [] else cwd) = if p.isAbsolute then [] else cwd := rfl
  rw [placeOf, placeOf, hstart, parent, hns, List.dropLast_concat, follow_append]
  simp [follow, step, hn]

/-! ## Plain names -/

/-- Whether no name is empty or `.` or holds a slash. -/
def IsPlain (p : Path) : Prop := ∀ n ∈ p.names, n ≠ "" ∧ n ≠ "." ∧ '/' ∉ n.toList

/-- **A path that is read from a text is plain.** Reading cuts at every slash and leaves out dots
and empty names. -/
theorem isPlain_ofString (s : String) : (ofString s).IsPlain := by
  intro n hn
  obtain ⟨w, hw, rfl⟩ := List.mem_map.1 hn
  obtain ⟨hmem, hkeep⟩ := List.mem_filter.1 hw
  rw [Bool.and_eq_true, Bool.not_eq_true', bne_iff_ne] at hkeep
  have hslash := Text.forall_mem_splitOnP (· == '/') s.toList w hmem
  refine ⟨fun h => ?_, fun h => ?_, fun h => ?_⟩
  · rw [String.ofList_eq_empty_iff] at h
    simp [h] at hkeep
  · exact hkeep.2 (by rw [← String.toList_ofList (l := w), h]; rfl)
  · rw [String.toList_ofList] at h
    simpa using hslash _ h

/-- A text without NUL denotes a path without NUL. -/
theorem holdsNul_ofString {s : String} (h : '\x00' ∉ s.toList) : (ofString s).holdsNul = false := by
  rw [holdsNul, List.any_eq_false]
  intro n hn
  obtain ⟨w, hw, rfl⟩ := List.mem_map.1 hn
  rw [List.contains_iff_mem, String.toList_ofList]
  exact fun hc => h (Text.mem_of_mem_splitOnP (List.mem_filter.1 hw).1 hc)

/-- A path holds the NUL character if the text it is read from does. -/
theorem holdsNul_ofString_iff {s : String} : (ofString s).holdsNul = true ↔ '\x00' ∈ s.toList := by
  constructor
  · intro h
    by_contra hmem
    rw [holdsNul_ofString hmem] at h
    exact Bool.noConfusion h
  · intro hmem
    obtain ⟨piece, hpiece, hnul⟩ := Text.exists_mem_splitOnP (p := (· == '/')) hmem (by decide)
    have hkept : (!piece.isEmpty && piece != ['.']) = true := by
      cases piece with
      | nil => simp at hnul
      | cons c cs =>
        rw [List.isEmpty_cons, Bool.not_false, Bool.true_and, bne_iff_ne]
        intro hdot
        rw [hdot] at hnul
        exact absurd hnul (by decide)
    rw [holdsNul, List.any_eq_true]
    refine ⟨String.ofList piece, List.mem_map.2 ⟨piece, List.mem_filter.2 ⟨hpiece, hkept⟩, rfl⟩, ?_⟩
    rwa [List.contains_iff_mem, String.toList_ofList]

/-- A path holds what the path above it holds. -/
theorem holdsNul_of_parent {p : Path} (h : p.parent.holdsNul = true) : p.holdsNul = true := by
  rw [holdsNul, List.any_eq_true] at h ⊢
  obtain ⟨n, hn, hc⟩ := h
  exact ⟨n, List.mem_of_mem_dropLast hn, hc⟩

theorem holdsNul_parent {p : Path} (h : p.holdsNul = false) : p.parent.holdsNul = false :=
  Bool.eq_false_iff.2 fun hp => Bool.eq_false_iff.1 h (holdsNul_of_parent hp)

end Path
end MemberHarvest
