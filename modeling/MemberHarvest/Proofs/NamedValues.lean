import Mathlib.Data.List.Induction
import MemberHarvest.Harvest.Projects

/-!
# Proofs/NamedValues — values under names

Putting a value under a name changes what is under that name only (`lookup_insert`). Of the values
that are put under one name the last one stays (`lookup_insertAll`), and the names come in the order
in which they are met first (`keys_insertAll`).
-/

namespace MemberHarvest.Harvest

variable {α : Type}

/-- The first value of a name is the one that is found. -/
theorem lookup_cons_eq_ite (e : String × α) (es : List (String × α)) (q : String) :
    (e :: es).lookup q = if q = e.1 then some e.2 else es.lookup q := by
  rw [List.lookup_cons]
  by_cases hq : q = e.1
  · simp [hq]
  · rw [beq_eq_false_iff_ne.2 hq, if_neg hq]

/-- A known name keeps its place and gets the new value. -/
theorem lookup_map_replace (es : List (String × α)) (name : String) (a : α) (q : String) :
    (es.map fun e => if e.1 = name then (name, a) else e).lookup q =
      if q = name then (es.lookup q).map fun _ => a else es.lookup q := by
  induction es with
  | nil => simp
  | cons e es ih =>
    rw [List.map_cons, lookup_cons_eq_ite, lookup_cons_eq_ite, ih]
    grind

/-- **Putting a value under a name changes what is under that name only.** Every fact about tables
that are filled step by step comes down to this one. -/
theorem lookup_insert (es : List (String × α)) (name : String) (a : α) (q : String) :
    (insert es name a).lookup q = if q = name then some a else es.lookup q := by
  rw [insert]
  split
  · rename_i h
    rw [lookup_map_replace]
    split
    · rename_i hq
      subst hq
      obtain ⟨e, he, hn⟩ := List.any_eq_true.1 h
      cases hl : es.lookup q with
      | some b => rfl
      | none =>
        have hne := List.lookup_eq_none_iff.1 hl e he
        simp [beq_iff_eq.1 hn] at hne
    · rfl
  · rename_i h
    rw [List.lookup_append, lookup_cons_eq_ite]
    split
    · rename_i hq
      subst hq
      have hnone : es.lookup q = none := by
        refine List.lookup_eq_none_iff.2 fun e he => bne_iff_ne.2 fun hq => h ?_
        exact List.any_eq_true.2 ⟨e, he, beq_iff_eq.2 hq.symm⟩
      rw [hnone, Option.none_or]
    · rw [List.lookup_nil, Option.or_none]

/-- **A new name comes last, and a known one keeps its place.** The value that it had is replaced
where it stands. -/
theorem keys_insert (es : List (String × α)) (name : String) (a : α) :
    (insert es name a).map Prod.fst =
      if name ∈ es.map Prod.fst then es.map Prod.fst else es.map Prod.fst ++ [name] := by
  have hany : es.any (fun e => e.1 == name) = true ↔ name ∈ es.map Prod.fst := by
    simp
  simp only [insert, hany]
  split
  · rw [List.map_map]
    refine List.map_congr_left fun e _ => ?_
    simp only [Function.comp]
    split <;> simp_all
  · simp

/-- The values of entries, put under their names one after another. -/
def insertAll (es : List (String × α)) : List (String × α) :=
  es.foldl (fun acc e => insert acc e.1 e.2) []

/-- The last of some entries is inserted behind the others. -/
theorem insertAll_concat (es : List (String × α)) (e : String × α) :
    insertAll (es ++ [e]) = insert (insertAll es) e.1 e.2 := by
  rw [insertAll, List.foldl_append]
  rfl

/-- **The last value that is put under a name stays.** This is why, of several projects of one name,
the last one is listed. -/
theorem lookup_insertAll (es : List (String × α)) (q : String) :
    (insertAll es).lookup q = es.reverse.lookup q := by
  induction es using List.reverseRecOn with
  | nil => rfl
  | append_singleton es e ih =>
    rw [insertAll_concat, lookup_insert, ih, List.reverse_concat, lookup_cons_eq_ite]

/-- **The names come in the order in which they are met first.** What is put under a name later does
not move it. -/
theorem keys_insertAll (es : List (String × α)) :
    (insertAll es).map Prod.fst = (es.map Prod.fst).eraseDups := by
  induction es using List.reverseRecOn with
  | nil => rfl
  | append_singleton es e ih =>
    rw [insertAll_concat, keys_insert, ih, List.map_append, List.eraseDups_append,
      List.map_singleton]
    by_cases he : e.1 ∈ es.map Prod.fst
    · rw [if_pos (List.mem_eraseDups.2 he)]
      simp only [List.removeAll, List.filter_cons, List.elem_eq_mem, he]
      simp
    · rw [if_neg (mt List.mem_eraseDups.1 he)]
      simp only [List.removeAll, List.filter_cons, List.elem_eq_mem, he]
      simp [List.eraseDups_cons]

/-- A name leads to the value of the first element that bears it. -/
theorem lookup_map_pair {β : Type} (key : β → String) (value : β → α) (bs : List β) (q : String) :
    (bs.map fun b => (key b, value b)).lookup q = (bs.find? fun b => key b == q).map value := by
  induction bs with
  | nil => rfl
  | cons b bs ih =>
    rw [List.map_cons, List.lookup_cons, List.find?_cons, ih, BEq.comm]
    cases key b == q <;> rfl

/-- Once all elements are inserted, a name leads to the value of the last one that bears it. -/
theorem lookup_insertAll_map {β : Type} (key : β → String) (value : β → α)
    (bs : List β) (q : String) :
    (insertAll (bs.map fun b => (key b, value b))).lookup q =
      (bs.reverse.find? fun b => key b == q).map value := by
  rw [lookup_insertAll, ← List.map_reverse, lookup_map_pair]

/-- All values stay just where one name always has one value. -/
theorem forall_lookup_insertAll_iff {β : Type} (key : β → String) (value : β → α) (bs : List β) :
    (∀ b ∈ bs, (insertAll (bs.map fun b => (key b, value b))).lookup (key b) = some (value b)) ↔
      ∀ b ∈ bs, ∀ c ∈ bs, key b = key c → value b = value c := by
  constructor
  · intro hall b hb c hc hkey
    have hlookup := hall b hb
    rw [hkey, hall c hc] at hlookup
    exact (Option.some.inj hlookup).symm
  · intro hsame b hb
    have hfound : (bs.reverse.find? fun c => key c == key b).isSome :=
      List.find?_isSome.2 ⟨b, List.mem_reverse.2 hb, beq_self_eq_true _⟩
    obtain ⟨c, hc⟩ := Option.isSome_iff_exists.1 hfound
    have hkey : key c = key b := by simpa using List.find?_some hc
    rw [lookup_insertAll_map, hc, Option.map_some,
      hsame c (List.mem_reverse.1 (List.mem_of_find?_eq_some hc)) b hb hkey]

end MemberHarvest.Harvest
