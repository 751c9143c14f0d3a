import Mathlib.Data.List.Lex
import Mathlib.Data.String.Basic
import MemberHarvest.Path.Resolve

/-!
# Proofs/Path/Order — the order of paths

Absolute paths sort as the lists of their names do: by the first name in which they differ, and
names by their first different character (`namesLe_iff`). So the paths of different places are
sorted into strict order (`pairwise_lt_sortPlaces`), and it comes to the same in which order they
were found (`sortPlaces_eq_of_perm`). So the places with a property are listed in one way only
(`Lists.unique`).
-/

namespace MemberHarvest.Path

/-- One text comes no later than another unless the other is less. -/
theorem textLe_iff {as bs : List Char} : textLe as bs = true ↔ ¬ bs < as := by
  induction as generalizing bs with
  | nil => simp [textLe]
  | cons a as ih =>
    cases bs with
    | nil => simp [textLe]
    | cons b bs =>
      rw [textLe, List.cons_lt_cons_iff, Bool.or_eq_true, Bool.and_eq_true, ih, beq_iff_eq,
        decide_eq_true_eq]
      rcases lt_trichotomy a b with h | rfl | h
      · simp [h, h.ne', h.le]
      · simp
      · simp [h, h.ne', h.le]

/-- **Lists of names are in lexicographic order,** name by name. A list is in front of all that it
is a beginning of. -/
theorem namesLe_iff {ns ms : List String} : namesLe ns ms = true ↔ ¬ ms < ns := by
  induction ns generalizing ms with
  | nil => simp [namesLe]
  | cons n ns ih =>
    cases ms with
    | nil => simp [namesLe]
    | cons m ms =>
      rw [namesLe, List.cons_lt_cons_iff]
      split
      · rename_i h
        simp [h, ih]
      · rename_i h
        rw [textLe_iff, ← String.lt_iff_toList_lt]
        simp [Ne.symm h]

/-- Absolute paths are compared by the names of their places. -/
theorem le_ofPlace (p q : Place) : (ofPlace p).le (ofPlace q) = namesLe p q := by
  simp [le, ofPlace, namesLe]

/-! ## Sorting places -/

/-- The places in order. -/
def sortPlaces (ps : List Place) : List Place := ps.mergeSort namesLe

/-- Sorting absolute paths is sorting the places they name. -/
theorem sort_map_ofPlace (ps : List Place) : sort (ps.map ofPlace) = (sortPlaces ps).map ofPlace :=
  (List.map_mergeSort fun p _ q _ => (le_ofPlace p q).symm).symm

theorem sortPlaces_perm (ps : List Place) : (sortPlaces ps).Perm ps := List.mergeSort_perm ps _

theorem pairwise_sortPlaces (ps : List Place) : (sortPlaces ps).Pairwise fun p q => ¬ q < p := by
  refine (List.pairwise_mergeSort (fun p q r hpq hqr => ?_) (fun p q => ?_) ps).imp namesLe_iff.1
  · rw [namesLe_iff, not_lt] at hpq hqr ⊢
    exact hpq.trans hqr
  · rw [Bool.or_eq_true, namesLe_iff, namesLe_iff, not_lt, not_lt]
    exact le_total p q

/-- **Different places are sorted into strict order.** Equal places would stand side by side. -/
theorem pairwise_lt_sortPlaces {ps : List Place} (h : ps.Nodup) :
    (sortPlaces ps).Pairwise (· < ·) := by
  have hdistinct : (sortPlaces ps).Pairwise (· ≠ ·) := (sortPlaces_perm ps).nodup_iff.2 h
  exact (pairwise_sortPlaces ps).imp₂ (fun p q hle hne => lt_of_le_of_ne (not_lt.1 hle) hne)
    hdistinct

/-- **The order in which places were found has no say.** So neither has the order in which a file
system lists its directories. -/
theorem sortPlaces_eq_of_perm {ps qs : List Place} (h : ps.Perm qs) :
    sortPlaces ps = sortPlaces qs := by
  have hperm : (sortPlaces ps).Perm (sortPlaces qs) :=
    (sortPlaces_perm ps).trans (h.trans (sortPlaces_perm qs).symm)
  refine hperm.eq_of_pairwise (fun p q _ _ hpq hqp => ?_) (pairwise_sortPlaces ps)
    (pairwise_sortPlaces qs)
  exact le_antisymm (not_lt.1 hpq) (not_lt.1 hqp)

/-- Paths resolve and sort to the same paths in whichever order they were found. -/
theorem sort_map_resolve_eq_of_perm {cwd : Place} {ps qs : List Path} (h : ps.Perm qs) :
    sort (ps.map (resolve cwd)) = sort (qs.map (resolve cwd)) := by
  have hmap (ps : List Path) : ps.map (resolve cwd) = (ps.map (placeOf cwd)).map ofPlace := by
    rw [List.map_map]
    rfl
  rw [hmap, hmap, sort_map_ofPlace, sort_map_ofPlace, sortPlaces_eq_of_perm (h.map _)]

/-! ## Listing places -/

/-- The places with a property, each once, in order. -/
structure Lists (P : Place → Prop) (ps : List Place) : Prop where
  sorted : ps.Pairwise (· < ·)
  mem : ∀ p, p ∈ ps ↔ P p

variable {P : Place → Prop} {ps qs : List Place}

/-- **Distinct places are listed by sorting them.** Every statement on what a search finds in order
is proved with this. -/
theorem lists_sortPlaces (hdistinct : ps.Nodup) (hmem : ∀ p, p ∈ ps ↔ P p) :
    Lists P (sortPlaces ps) where
  sorted := pairwise_lt_sortPlaces hdistinct
  mem p := (sortPlaces_perm ps).mem_iff.trans (hmem p)

theorem Lists.nodup (h : Lists P ps) : ps.Nodup := h.sorted.imp fun hlt => ne_of_lt hlt

/-- **Places are listed in one way only.** Two strictly ordered lists of the same elements are the
same list. -/
theorem Lists.unique (h : Lists P ps) (h' : Lists P qs) : ps = qs := by
  have hperm : ps.Perm qs := (List.perm_ext_iff_of_nodup h.nodup h'.nodup).2 fun p =>
    (h.mem p).trans (h'.mem p).symm
  exact hperm.eq_of_pairwise (fun p q _ _ hpq hqp => absurd (hpq.trans hqp) (lt_irrefl p))
    h.sorted h'.sorted

/-- The places of a listing that are kept list those that are to be kept. -/
theorem Lists.filter (h : Lists P ps) (keep : Place → Bool) :
    Lists (fun p => P p ∧ keep p = true) (ps.filter keep) where
  sorted := h.sorted.filter keep
  mem p := by rw [List.mem_filter, h.mem]

end MemberHarvest.Path
