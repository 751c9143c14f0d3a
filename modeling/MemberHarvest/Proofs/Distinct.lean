import Mathlib.Data.List.Forall2

/-!
# Proofs/Distinct — lists that keep each element at its first occurrence

Where two lists keep the same elements in the same order, they may stand for each other in a longer
list (`eraseDups_append_congr`). So it makes no difference where on the way repetitions are dropped.
To keep first occurrences commutes with a filter and with an injective map.
-/

namespace MemberHarvest.Distinct

/-- What is left without repetitions stands in the order in which it stood. -/
theorem eraseDups_sublist {α : Type} [BEq α] (as : List α) : as.eraseDups.Sublist as := by
  cases as with
  | nil => exact List.Sublist.slnil
  | cons a as =>
    rw [List.eraseDups_cons]
    exact ((eraseDups_sublist _).trans List.filter_sublist).cons_cons a
termination_by as.length
decreasing_by exact Nat.lt_succ_of_le (List.length_filter_le _ _)

theorem nodup_eraseDups {α : Type} [BEq α] [LawfulBEq α] (as : List α) : as.eraseDups.Nodup := by
  cases as with
  | nil => simp
  | cons a as =>
    rw [List.eraseDups_cons, List.nodup_cons, List.mem_eraseDups]
    exact ⟨by simp, nodup_eraseDups _⟩
termination_by as.length
decreasing_by exact Nat.lt_succ_of_le (List.length_filter_le _ _)

variable {α β : Type} [BEq α] [LawfulBEq α] [BEq β] [LawfulBEq β]

/-- It does not matter whether repetitions or other elements are left out first. -/
theorem eraseDups_filter (keep : α → Bool) (as : List α) :
    (as.filter keep).eraseDups = as.eraseDups.filter keep := by
  cases as with
  | nil => rfl
  | cons a as =>
    have ih := eraseDups_filter keep (as.filter fun b => !b == a)
    cases hkeep : keep a with
    | true =>
      rw [List.filter_cons_of_pos hkeep, List.eraseDups_cons, List.eraseDups_cons,
        List.filter_cons_of_pos hkeep, ← ih, List.filter_filter, List.filter_filter]
      simp only [Bool.and_comm]
    | false =>
      have hdropped : (as.filter fun b => !b == a).filter keep = as.filter keep := by
        rw [List.filter_filter]
        refine List.filter_congr fun b _ => ?_
        by_cases hb : b = a <;> simp [hb, hkeep]
      rw [List.filter_cons_of_neg (by simp [hkeep]), List.eraseDups_cons,
        List.filter_cons_of_neg (by simp [hkeep]), ← ih,
        hdropped]
termination_by as.length
decreasing_by exact Nat.lt_succ_of_le (List.length_filter_le _ _)

/-- A function that keeps elements apart makes no new repetitions. -/
theorem eraseDups_map {f : α → β} (hf : Function.Injective f) (as : List α) :
    (as.map f).eraseDups = as.eraseDups.map f := by
  cases as with
  | nil => rfl
  | cons a as =>
    have ih := eraseDups_map hf (as.filter fun b => !b == a)
    have hfilter : (as.map f).filter (fun b => !b == f a) = (as.filter fun b => !b == a).map f := by
      rw [List.filter_map]
      refine congrArg _ (List.filter_congr fun b _ => ?_)
      simp [hf.eq_iff]
    rw [List.map_cons, List.eraseDups_cons, hfilter, ih, List.eraseDups_cons, List.map_cons]
termination_by as.length
decreasing_by exact Nat.lt_succ_of_le (List.length_filter_le _ _)

/-- Where nothing is repeated, nothing is left out. -/
theorem eraseDups_of_nodup {as : List α} (h : as.Nodup) : as.eraseDups = as := by
  induction as with
  | nil => rfl
  | cons a as ih =>
    obtain ⟨ha, has⟩ := List.nodup_cons.1 h
    have hkept : as.filter (fun b => !b == a) = as := by
      refine List.filter_eq_self.2 fun b hb => ?_
      rw [Bool.not_eq_true', beq_eq_false_iff_ne]
      rintro rfl
      exact ha hb
    rw [List.eraseDups_cons, hkept, ih has]

/-- **What keeps the same elements may stand for each other.** So a list of sources may be put
together from parts, each of which is known up to repetitions only. -/
theorem eraseDups_append_congr {as as' bs bs' : List α} (ha : as.eraseDups = as'.eraseDups)
    (hb : bs.eraseDups = bs'.eraseDups) : (as ++ bs).eraseDups = (as' ++ bs').eraseDups := by
  have hmem (b : α) : b ∈ as ↔ b ∈ as' := by rw [← List.mem_eraseDups, ha, List.mem_eraseDups]
  have hremove : bs.removeAll as = bs.removeAll as' := by
    refine List.filter_congr fun b _ => ?_
    simp [hmem]
  rw [List.eraseDups_append, List.eraseDups_append, ha, hremove, List.removeAll,
    List.removeAll, eraseDups_filter, eraseDups_filter, hb]

end MemberHarvest.Distinct
