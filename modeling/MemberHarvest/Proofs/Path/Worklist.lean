import Mathlib.Data.Finset.Card
import Mathlib.Order.Bounds.Basic
import MemberHarvest.Proofs.Distinct
import MemberHarvest.Proofs.Path.Variants

/-!
# Proofs/Path/Worklist — the variants of a pattern, found one by one

A search holds the texts that it has met, and those of them whose deletions are still to be looked
at (`Search`). A turn takes one of these out, whichever it is, and meets what deletions make of it
(`Search.Step`). What has been met is at any time a variant of the pattern, and a text whose
deletions have not all been met is still pending (`Search.Sound`). So a search without pending texts
has met the least set that holds the pattern and is closed under deletions. It comes there in any
order, for every turn makes one text final: turns and pending texts together are as many as the
texts that have been met (`Search.Sound.card_seen`), and these are among the variants.
-/

namespace MemberHarvest.Ignore

variable {pattern cs v : List Char}

/-! ## Closed sets -/

/-- Whether a set of texts holds a pattern and, with each text, what one deletion of `**/` makes of
it. -/
def IsClosed (pattern : List Char) (texts : Set (List Char)) : Prop :=
  pattern ∈ texts ∧ ∀ front back, front ++ (anyDirectories ++ back) ∈ texts → front ++ back ∈ texts

/-- A closed set holds every variant. -/
theorem IsClosed.mem_of_isVariant {texts : Set (List Char)} (h : IsClosed pattern texts)
    (hv : IsVariant pattern v) :
    v ∈ texts := by
  induction hv with
  | refl => exact h.1
  | tail _ hd ih =>
    obtain ⟨front, back, rfl, rfl⟩ := mem_deletions_iff.1 hd
    exact h.2 front back ih

/-- **The least closed set is that of the variants.** Each variant is reached by deletions, so a
closed set has to hold it. -/
theorem isLeast_isVariant (pattern : List Char) :
    IsLeast {texts | IsClosed pattern texts} {v | IsVariant pattern v} := by
  refine ⟨⟨.refl, fun front back hv => ?_⟩, fun texts htexts v hv => htexts.mem_of_isVariant hv⟩
  exact hv.tail (mem_deletions_iff.2 ⟨front, back, rfl, rfl⟩)

/-! ## The variants, each once -/

/-- What comes up in the rounds is no longer than some text of the first one. -/
theorem exists_length_le_of_mem_rounds {n : ℕ} {now : List (List Char)} (hv : v ∈ rounds n now) :
    ∃ p ∈ now, v.length ≤ p.length := by
  induction n generalizing now with
  | zero => exact ⟨v, hv, Nat.le_refl _⟩
  | succ n ih =>
    rw [rounds, List.mem_append] at hv
    rcases hv with hv | hv
    · exact ⟨v, hv, Nat.le_refl _⟩
    · obtain ⟨q, hq, hle⟩ := ih hv
      obtain ⟨p, hp, hqp⟩ := List.mem_flatMap.1 (List.mem_eraseDups.1 hq)
      have hdeleted := length_of_mem_deletions hqp
      exact ⟨p, hp, by omega⟩

/-- Texts of one length come up in one round only, since a deletion makes a text shorter. -/
theorem nodup_rounds {n : ℕ} {now : List (List Char)} {k : ℕ} (h : ∀ p ∈ now, p.length = k)
    (hnow : now.Nodup) : (rounds n now).Nodup := by
  induction n generalizing now k with
  | zero => exact hnow
  | succ n ih =>
    have hnext : ∀ q ∈ (now.flatMap deletions).eraseDups, q.length + 3 = k := by
      intro q hq
      obtain ⟨p, hp, hqp⟩ := List.mem_flatMap.1 (List.mem_eraseDups.1 hq)
      rw [length_of_mem_deletions hqp, h p hp]
    rw [rounds, List.nodup_append]
    refine ⟨hnow, ih (k := k - 3) (fun q hq => ?_) (Distinct.nodup_eraseDups _), ?_⟩
    · have hshorter := hnext q hq
      omega
    · rintro p hp q hq rfl
      obtain ⟨q', hq', hle⟩ := exists_length_le_of_mem_rounds hq
      have hlength := h p hp
      have hshorter := hnext q' hq'
      omega

/-- **The variants of a pattern are listed once each.** A text that has been met is not listed
again. -/
theorem nodup_variants (pattern : List Char) : (variants pattern).Nodup :=
  nodup_rounds (k := pattern.length) (by simp) (List.nodup_singleton pattern)

/-! ## The search -/

/-- How far a search for variants has come: the texts that have been met, and those of them whose
deletions are still to be looked at. -/
structure Search where
  met : Finset (List Char)
  pending : List (List Char)

namespace Search

/-- A search that has met the pattern only. -/
def start (pattern : List Char) : Search := ⟨{pattern}, [pattern]⟩

/-- Meet a text: a new one is pending from now on. -/
def meet (s : Search) (d : List Char) : Search :=
  if d ∈ s.met then s else ⟨insert d s.met, s.pending ++ [d]⟩

/-- Meet what one deletion makes of a text, place by place. -/
def expand (s : Search) (cs : List Char) : Search := (deletions cs).foldl meet s

/-- A turn of the search: some pending text is taken out and expanded. -/
inductive Step : Search → Search → Prop
  | turn (met : Finset (List Char)) (before : List (List Char)) (cs : List Char)
    (after : List (List Char)) :
    Step ⟨met, before ++ cs :: after⟩ (expand ⟨met, before ++ after⟩ cs)

/-- A number of turns, one after another. -/
inductive Turns : ℕ → Search → Search → Prop
  | refl (s : Search) : Turns 0 s s
  | tail {n : ℕ} {s t u : Search} (before : Turns n s t) (last : Step t u) : Turns (n + 1) s u

/-- The turn that takes the text that was met last; nothing where no text is pending. -/
def next? (s : Search) : Option Search :=
  s.pending.getLast?.map fun cs => expand ⟨s.met, s.pending.dropLast⟩ cs

/-- The search that always takes the text that was met last, for a number of turns at most. -/
def run : ℕ → Search → Search
  | 0, s => s
  | n + 1, s => match s.next? with
    | none => s
    | some t => run n t

variable {s t : Search}

/-! ### What a turn does -/

/-- **Meeting texts adds them, and makes just the new ones pending, each once.** The new ones keep
the order in which they are met. -/
theorem exists_foldl_meet (s : Search) (ds : List (List Char)) :
    ∃ fresh : List (List Char), fresh.Nodup ∧ (∀ d, d ∈ fresh ↔ d ∈ ds ∧ d ∉ s.met) ∧
      ds.foldl meet s = ⟨s.met ∪ ds.toFinset, s.pending ++ fresh⟩ := by
  induction ds generalizing s with
  | nil => exact ⟨[], List.nodup_nil, by simp, by simp⟩
  | cons d ds ih =>
    obtain ⟨fresh, hnodup, hmem, heq⟩ := ih (s.meet d)
    by_cases hd : d ∈ s.met
    · rw [meet, if_pos hd] at hmem heq
      refine ⟨fresh, hnodup, fun e => ?_, ?_⟩
      · rw [hmem, List.mem_cons]
        constructor
        · exact fun ⟨he, hnew⟩ => ⟨.inr he, hnew⟩
        · rintro ⟨rfl | he, hnew⟩
          · exact absurd hd hnew
          · exact ⟨he, hnew⟩
      · rw [List.foldl_cons, meet, if_pos hd, heq]
        simp [hd]
    · rw [meet, if_neg hd] at hmem heq
      refine ⟨d :: fresh, List.nodup_cons.2 ⟨fun h => ?_, hnodup⟩, fun e => ?_, ?_⟩
      · exact ((hmem d).1 h).2 (Finset.mem_insert_self d s.met)
      · rw [List.mem_cons, hmem, List.mem_cons, Finset.mem_insert]
        by_cases he : e = d <;> simp [he, hd]
      · rw [List.foldl_cons, meet, if_neg hd, heq]
        simp

/-! ### What holds at any time -/

/-- A search after a number of turns: it has met variants only, among them the pattern; of a text
that is not pending it has met all that deletions make; and each text it has met is pending or has
been taken out in one of the turns. -/
structure Sound (pattern : List Char) (turns : ℕ) (s : Search) : Prop where
  pattern_mem : pattern ∈ s.met
  isVariant : ∀ v ∈ s.met, IsVariant pattern v
  pending_nodup : s.pending.Nodup
  pending_subset : ∀ v ∈ s.pending, v ∈ s.met
  expanded : ∀ v ∈ s.met, v ∉ s.pending → ∀ d ∈ deletions v, d ∈ s.met
  card_met : s.met.card = turns + s.pending.length

theorem sound_start (pattern : List Char) : Sound pattern 0 (start pattern) where
  pattern_mem := Finset.mem_singleton_self pattern
  isVariant v hv := Finset.mem_singleton.1 hv ▸ .refl
  pending_nodup := List.nodup_singleton pattern
  pending_subset v hv := by simpa [start] using hv
  expanded v hv hnot := by simp_all [start]
  card_met := rfl

namespace Sound

variable {turns : ℕ}

/-- **A turn keeps a search sound,** whichever text it takes. What is taken is a variant, and so are
its deletions; what is met and not pending has its deletions met. -/
theorem step (h : Sound pattern turns s) (hstep : Step s t) : Sound pattern (turns + 1) t := by
  obtain ⟨met, before, cs, after⟩ := hstep
  obtain ⟨fresh, hfresh, hmem, heq⟩ := exists_foldl_meet ⟨met, before ++ after⟩ (deletions cs)
  simp only at hmem heq
  have hrest {v : List Char} : v ∈ before ++ cs :: after ↔ v = cs ∨ v ∈ before ++ after := by
    simp only [List.mem_append, List.mem_cons]
    tauto
  have hcs : cs ∈ met := h.pending_subset cs (hrest.2 (.inl rfl))
  have hkept : ∀ v ∈ before ++ after, v ∈ met := fun v hv => h.pending_subset v (hrest.2 (.inr hv))
  rw [expand, heq]
  refine ⟨?_, ?_, ?_, ?_, ?_, ?_⟩
  · exact Finset.mem_union_left _ h.pattern_mem
  · intro v hv
    rcases Finset.mem_union.1 hv with hv | hv
    · exact h.isVariant v hv
    · exact (h.isVariant cs hcs).tail (List.mem_toFinset.1 hv)
  · have hnodup : (cs :: (before ++ after)).Nodup := (List.perm_middle.nodup_iff).1 h.pending_nodup
    refine List.nodup_append.2 ⟨(List.nodup_cons.1 hnodup).2, hfresh, ?_⟩
    rintro v hv w hw rfl
    exact ((hmem v).1 hw).2 (hkept v hv)
  · intro v hv
    rcases List.mem_append.1 hv with hv | hv
    · exact Finset.mem_union_left _ (hkept v hv)
    · exact Finset.mem_union_right _ (List.mem_toFinset.2 ((hmem v).1 hv).1)
  · intro v hv hnot d hd
    rw [List.mem_append, not_or] at hnot
    by_cases hold : v ∈ met
    · by_cases hvcs : v = cs
      · exact Finset.mem_union_right _ (List.mem_toFinset.2 (hvcs ▸ hd))
      · refine Finset.mem_union_left _ (h.expanded v hold (fun hpending => ?_) d hd)
        exact (hrest.1 hpending).elim hvcs hnot.1
    · -- A text that was not known before the turn is pending after it.
      have hnew := List.mem_toFinset.1 ((Finset.mem_union.1 hv).resolve_left hold)
      exact absurd ((hmem v).2 ⟨hnew, hold⟩) hnot.2
  · have hunion : met ∪ (deletions cs).toFinset = met ∪ fresh.toFinset := by
      ext v
      simp only [Finset.mem_union, List.mem_toFinset, hmem]
      tauto
    have hdisjoint : Disjoint met fresh.toFinset := by
      refine Finset.disjoint_right.2 fun v hv => ?_
      exact ((hmem v).1 (List.mem_toFinset.1 hv)).2
    have hcard := h.card_met
    simp only [List.length_append, List.length_cons] at hcard ⊢
    rw [hunion, Finset.card_union_of_disjoint hdisjoint, List.toFinset_card_of_nodup hfresh]
    omega

/-- **A search stays sound, whatever is taken up in each turn.** -/
theorem after (h : Sound pattern turns s) {n : ℕ} (hturns : Turns n s t) :
    Sound pattern (turns + n) t := by
  induction hturns with
  | refl => exact h
  | tail _ last ih => exact (ih h).step last

theorem met_subset (h : Sound pattern turns s) : s.met ⊆ (variants pattern).toFinset :=
  fun v hv => List.mem_toFinset.2 (mem_variants_iff.2 (h.isVariant v hv))

/-- **There are no more turns than variants.** Each turn takes a text that is met once, and what is
pending has been met as well. -/
theorem turns_add_le (h : Sound pattern turns s) :
    turns + s.pending.length ≤ (variants pattern).length := by
  rw [← h.card_met, ← List.toFinset_card_of_nodup (nodup_variants pattern)]
  exact Finset.card_le_card h.met_subset

/-- A search that has nothing pending has met what is closed under deletions. -/
theorem isClosed (h : Sound pattern turns s) (hdone : s.pending = []) :
    IsClosed pattern (s.met : Set (List Char)) := by
  refine ⟨h.pattern_mem, fun front back hv => ?_⟩
  have hnot : front ++ (anyDirectories ++ back) ∉ s.pending := by simp [hdone]
  exact h.expanded _ hv hnot _ (mem_deletions_iff.2 ⟨front, back, rfl, rfl⟩)

/-- **A search that has nothing pending has met all variants.** What has been met is closed then,
and it holds variants only. -/
theorem met_eq (h : Sound pattern turns s) (hdone : s.pending = []) :
    s.met = (variants pattern).toFinset := by
  refine h.met_subset.antisymm fun v hv => ?_
  exact (h.isClosed hdone).mem_of_isVariant (mem_variants_iff.1 (List.mem_toFinset.1 hv))

end Sound

/-! ### Coming to an end -/

/-- As long as something is pending, a turn can be taken. -/
theorem exists_step (h : s.pending ≠ []) : ∃ t, Step s t := by
  obtain ⟨met, pending⟩ := s
  obtain ⟨cs, after, rfl⟩ := List.exists_cons_of_ne_nil h
  exact ⟨_, .turn met [] cs after⟩

/-- To take the text that was met last is one way of taking a pending text. -/
theorem step_of_next? (h : s.next? = some t) : Step s t := by
  obtain ⟨met, pending⟩ := s
  obtain ⟨cs, hlast, rfl⟩ := Option.map_eq_some_iff.1 h
  obtain ⟨before, rfl⟩ := List.getLast?_eq_some_iff.1 hlast
  simpa using Step.turn met before cs []

theorem pending_of_next?_eq_none (h : s.next? = none) : s.pending = [] := by
  rwa [next?, Option.map_eq_none_iff, List.getLast?_eq_none_iff] at h

/-- With as many turns as there are variants left, the search that takes the last text comes to its
end. -/
theorem run_eq {turns n : ℕ} (h : Sound pattern turns s)
    (hn : (variants pattern).length ≤ turns + n) :
    run n s = ⟨(variants pattern).toFinset, []⟩ := by
  have hdone (hpending : s.pending = []) : s = ⟨(variants pattern).toFinset, []⟩ := by
    rw [← h.met_eq hpending, ← hpending]
  induction n generalizing s turns with
  | zero =>
    have hle := h.turns_add_le
    exact hdone (List.length_eq_zero_iff.1 (by omega))
  | succ n ih =>
    rw [run]
    cases hnext : s.next? with
    | none => exact hdone (pending_of_next?_eq_none hnext)
    | some t =>
      have ht : Sound pattern (turns + 1) t := h.step (step_of_next? hnext)
      refine ih ht (by omega) fun hpending => ?_
      rw [← ht.met_eq hpending, ← hpending]

/-- **A search for variants comes to its end in whatever order it takes the pending texts, and has
then met the least set that holds the pattern and is closed under deletions.** It makes one turn for
each of these texts and no more, and is not stuck before its end. The search that always takes the
text met last is one of these, and the variants, each listed once, are the same set. -/
theorem met_isLeast (pattern : List Char) :
    (∀ n s, Turns n (start pattern) s →
      n + s.pending.length ≤ (variants pattern).length ∧ (s.pending ≠ [] → ∃ t, Step s t) ∧
        (s.pending = [] → n = (variants pattern).length ∧
          IsLeast {texts | IsClosed pattern texts} (s.met : Set (List Char)))) ∧
      (∀ s t, s.next? = some t → Step s t) ∧
      run (variants pattern).length (start pattern) = ⟨(variants pattern).toFinset, []⟩ ∧
      (variants pattern).Nodup ∧
        IsLeast {texts | IsClosed pattern texts} {v | v ∈ variants pattern} := by
  have hleast : IsLeast {texts | IsClosed pattern texts} {v | v ∈ variants pattern} := by
    simpa only [mem_variants_iff] using isLeast_isVariant pattern
  refine ⟨fun n s hturns => ?_, fun s t => step_of_next?, run_eq (sound_start pattern) (by omega),
    nodup_variants pattern, hleast⟩
  have h : Sound pattern n s := by simpa using (sound_start pattern).after hturns
  refine ⟨h.turns_add_le, exists_step, fun hdone => ⟨?_, ?_⟩⟩
  · have hcard := h.card_met
    rw [h.met_eq hdone, List.toFinset_card_of_nodup (nodup_variants pattern), hdone] at hcard
    simpa using hcard.symm
  · have hset : (s.met : Set (List Char)) = {v | v ∈ variants pattern} := by
      ext v
      rw [h.met_eq hdone, Finset.mem_coe, List.mem_toFinset]
      rfl
    rwa [hset]

/-- A deletion may bring two parts together to a further `**/`, which is then deleted as well. -/
example : variants "****//".toList = ["****//".toList, "**/".toList, []] := by decide

end Search

end MemberHarvest.Ignore
