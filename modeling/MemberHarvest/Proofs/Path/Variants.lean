import Mathlib.Logic.Relation
import MemberHarvest.Path.Ignore

/-!
# Proofs/Path/Variants — the variants of a pattern

A variant is what is left of a pattern when some of its `**/` are deleted, one after another: a
deletion may also bring two parts together to a `**/` that was not there before. The rounds in which
variants are formed come upon all of them (`mem_variants_iff`).
-/

namespace MemberHarvest.Ignore

variable {cs d v : List Char}

/-- A pattern comes to a text by deletions, any number of them one after another. -/
def IsVariant (pattern v : List Char) : Prop :=
  Relation.ReflTransGen (fun cs d => d ∈ deletions cs) pattern v

/-- **Any one occurrence of `**/` may be deleted.** Two occurrences never overlap, as each ends with
its only slash. -/
theorem mem_deletions_iff :
    d ∈ deletions cs ↔ ∃ front back, cs = front ++ (anyDirectories ++ back) ∧
      d = front ++ back := by
  induction cs generalizing d with
  | nil => simp [deletions, anyDirectories]
  | cons c cs ih =>
    rw [deletions, List.mem_append, List.mem_map]
    constructor
    · rintro (h | ⟨e, he, rfl⟩)
      · split at h
        · rename_i hbegins
          obtain ⟨back, hback⟩ := List.isPrefixOf_iff_prefix.1 hbegins
          refine ⟨[], back, hback.symm, ?_⟩
          rw [List.mem_singleton.1 h, ← hback]
          rfl
        · exact absurd h List.not_mem_nil
      · obtain ⟨front, back, rfl, rfl⟩ := ih.1 he
        exact ⟨c :: front, back, rfl, rfl⟩
    · rintro ⟨front, back, hcs, rfl⟩
      cases front with
      | nil =>
        left
        rw [hcs, List.nil_append, if_pos (List.isPrefixOf_iff_prefix.2 (List.prefix_append _ back))]
        exact List.mem_singleton.2 rfl
      | cons _ front =>
        obtain ⟨rfl, rfl⟩ := List.cons.inj hcs
        exact .inr ⟨front ++ back, ih.2 ⟨front, back, rfl, rfl⟩, rfl⟩

/-- A deletion is one also behind a common beginning. -/
theorem IsVariant.append (h : IsVariant cs v) (front : List Char) :
    IsVariant (front ++ cs) (front ++ v) := by
  refine Relation.ReflTransGen.lift (front ++ ·) (fun cs d hd => ?_) _ _ h
  obtain ⟨before, back, rfl, rfl⟩ := mem_deletions_iff.1 hd
  exact mem_deletions_iff.2 ⟨front ++ before, back, by simp, by simp⟩

/-- **With enough rounds, just the variants of the patterns at hand are found.** A deletion takes
three characters, so a third of the length is enough. -/
theorem mem_rounds_iff {n : Nat} {now : List (List Char)} (h : ∀ p ∈ now, p.length / 3 ≤ n) :
    v ∈ rounds n now ↔ ∃ p ∈ now, IsVariant p v := by
  induction n generalizing now with
  | zero =>
    have hfinal : ∀ p ∈ now, IsVariant p v ↔ v = p := by
      intro p hp
      refine ⟨fun hv => ?_, fun hv => hv ▸ .refl⟩
      rcases Relation.ReflTransGen.cases_head_iff.1 hv with rfl | ⟨q, hq, -⟩
      · rfl
      · have hlength := length_of_mem_deletions hq
        have hshort := h p hp
        omega
    rw [rounds]
    exact ⟨fun hv => ⟨v, hv, .refl⟩, fun ⟨p, hp, hv⟩ => (hfinal p hp).1 hv ▸ hp⟩
  | succ n ih =>
    have hnext : ∀ q ∈ (now.flatMap deletions).eraseDups, q.length / 3 ≤ n := by
      intro q hq
      obtain ⟨p, hp, hqp⟩ := List.mem_flatMap.1 (List.mem_eraseDups.1 hq)
      have hlength := length_of_mem_deletions hqp
      have hshort := h p hp
      omega
    rw [rounds, List.mem_append, ih hnext]
    constructor
    · rintro (hv | ⟨q, hq, hv⟩)
      · exact ⟨v, hv, .refl⟩
      · obtain ⟨p, hp, hqp⟩ := List.mem_flatMap.1 (List.mem_eraseDups.1 hq)
        exact ⟨p, hp, .head hqp hv⟩
    · rintro ⟨p, hp, hv⟩
      rcases Relation.ReflTransGen.cases_head_iff.1 hv with rfl | ⟨q, hqp, hv⟩
      · exact .inl hp
      · exact .inr ⟨q, List.mem_eraseDups.2 (List.mem_flatMap.2 ⟨p, hp, hqp⟩), hv⟩

/-- **The variants of a pattern are all that it comes to by deletions.** A variant comes from the
pattern by any number of deletions, one after the other. -/
theorem mem_variants_iff {pattern : List Char} : v ∈ variants pattern ↔ IsVariant pattern v := by
  rw [variants, mem_rounds_iff (List.forall_mem_singleton.2 (Nat.le_refl _))]
  simp

end MemberHarvest.Ignore
