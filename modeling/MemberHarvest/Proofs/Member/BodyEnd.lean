import Mathlib.Tactic.ByContra
import MemberHarvest.Member.Body

/-!
# Proofs/Member/BodyEnd — where a body ends

The end of a body is decided by the first line behind the body's first one that marks a member
(`IsFirstMark`): it is the index in front of that line (`bodyEnd_of_isFirstMark`), and `openEnd`
where there is none (`bodyEnd_of_forall_unmarked`). The text of the body is the lines from its first
one up to the end (`sliceBody_natCast`).
-/

namespace MemberHarvest.Body

variable {fallback : Bool} {lines : List String} {start k : Nat}

/-- Whether the line with an index speaks of something public or private. -/
def marksAt (lines : List String) (k : Nat) : Bool := lines[k]?.any marksMember

/-- Only a line of the file marks a member. -/
theorem lt_length_of_marksAt (h : marksAt lines k = true) : k < lines.length := by
  by_contra hk
  simp [marksAt, List.getElem?_eq_none (Nat.le_of_not_lt hk)] at h

theorem marksAt_eq_getElem (h : k < lines.length) : marksAt lines k = marksMember lines[k] := by
  simp [marksAt, h]

/-- `k` is the first index behind `start` whose line marks a member. -/
structure IsFirstMark (lines : List String) (start k : Nat) : Prop where
  lt : start < k
  marks : marksAt lines k = true
  unmarked : ∀ i, start < i → i < k → marksAt lines i = false

/-! ## The search behind the first line -/

/-- What the search behind the start finds is the first mark behind it. -/
theorem findIdx?_drop_eq_some {d : Nat}
    (h : (lines.drop (start + 1)).findIdx? marksMember = some d) :
    IsFirstMark lines start (start + 1 + d) := by
  obtain ⟨hd, hm, hf⟩ := List.findIdx?_eq_some_iff_getElem.1 h
  rw [List.length_drop] at hd
  refine ⟨by omega, ?_, fun i hi hk => ?_⟩
  · rw [marksAt_eq_getElem (by omega)]
    simpa using hm
  · have := hf (i - (start + 1)) (by omega)
    rw [List.getElem_drop] at this
    rw [marksAt_eq_getElem (by omega)]
    simpa [show start + 1 + (i - (start + 1)) = i by omega] using this

/-- Where the search behind the start finds nothing, no line behind it marks a member. -/
theorem findIdx?_drop_eq_none (h : (lines.drop (start + 1)).findIdx? marksMember = none) :
    ∀ i, start < i → marksAt lines i = false := by
  intro i hi
  by_contra hm
  have hlt : i < lines.length := lt_length_of_marksAt (by simpa using hm)
  rw [marksAt_eq_getElem hlt] at hm
  refine hm (List.findIdx?_eq_none_iff.1 h _ ?_)
  rw [List.mem_drop_iff_getElem]
  exact ⟨i - (start + 1), by omega, by simp [show start + 1 + (i - (start + 1)) = i by omega]⟩

/-- **Behind every start there is a first marking line, or none that marks.** This is the case split
behind every statement about ends. -/
theorem exists_isFirstMark_or (lines : List String) (start : Nat) :
    (∃ k, IsFirstMark lines start k) ∨ ∀ i, start < i → marksAt lines i = false := by
  cases h : (lines.drop (start + 1)).findIdx? marksMember with
  | some d => exact .inl ⟨_, findIdx?_drop_eq_some h⟩
  | none => exact .inr (findIdx?_drop_eq_none h)

/-- There is one first mark behind a line. -/
theorem IsFirstMark.unique {l : Nat} (hk : IsFirstMark lines start k)
    (hl : IsFirstMark lines start l) :
    k = l := by
  rcases Nat.lt_trichotomy k l with h | h | h
  · exact absurd hk.marks (by simp [hl.unmarked k hk.lt h])
  · exact h
  · exact absurd hl.marks (by simp [hk.unmarked l hl.lt h])

/-- A marking line behind the start is the first one or comes behind it. -/
theorem exists_isFirstMark_of_marksAt (hk : start < k) (hm : marksAt lines k = true) :
    ∃ l, IsFirstMark lines start l ∧ l ≤ k := by
  rcases exists_isFirstMark_or lines start with ⟨l, hl⟩ | hnone
  · refine ⟨l, hl, ?_⟩
    by_contra hlk
    simp [hl.unmarked k hk (by omega)] at hm
  · simp [hnone k hk] at hm

/-! ## The end -/

/-- **A body ends in front of the first marking line behind its start.** The start itself is not
looked at, even if it marks a member. -/
theorem bodyEnd_of_isFirstMark (h : IsFirstMark lines start k) :
    bodyEnd fallback lines start = k - 1 := by
  rw [bodyEnd, endAmong]
  cases hf : (lines.drop (start + 1)).findIdx? marksMember with
  | some d =>
    have := h.unique (findIdx?_drop_eq_some hf)
    simp only
    omega
  | none => exact absurd h.marks (by simp [findIdx?_drop_eq_none hf k h.lt])

/-- **Where no line behind the start marks a member, the end is open.** Only then does the fallback
count. -/
theorem bodyEnd_of_forall_unmarked (h : ∀ i, start < i → marksAt lines i = false) :
    bodyEnd fallback lines start = openEnd fallback lines := by
  rw [bodyEnd, endAmong]
  cases hf : (lines.drop (start + 1)).findIdx? marksMember with
  | some d =>
    have hd := findIdx?_drop_eq_some hf
    exact absurd hd.marks (by simp [h _ hd.lt])
  | none => rfl

/-- A marking line behind the start is behind the end as well. -/
theorem bodyEnd_lt_of_marksAt (hk : start < k) (hm : marksAt lines k = true) :
    bodyEnd fallback lines start < k := by
  obtain ⟨l, hl, hle⟩ := exists_isFirstMark_of_marksAt hk hm
  have hlt := hl.lt
  rw [bodyEnd_of_isFirstMark hl]
  omega

/-- A first line that does not mark a member has no say in where the body ends. -/
theorem bodyEnd_succ (h : marksAt lines (start + 1) = false) :
    bodyEnd fallback lines (start + 1) = bodyEnd fallback lines start := by
  rcases exists_isFirstMark_or lines start with ⟨k, hk⟩ | hnone
  · have hne : k ≠ start + 1 := fun e => by simp [e ▸ hk.marks] at h
    have := hk.lt
    rw [bodyEnd_of_isFirstMark hk, bodyEnd_of_isFirstMark
      ⟨by omega, hk.marks, fun i hi => hk.unmarked i (by omega)⟩]
  · rw [bodyEnd_of_forall_unmarked hnone,
      bodyEnd_of_forall_unmarked fun i hi => hnone i (by omega)]

/-- **A body has lines where the line behind its start is unmarked,** and either some later line
marks a member, or the fallback applies and the start is not the last line. -/
theorem lt_bodyEnd_iff :
    (start : Int) < bodyEnd fallback lines start ↔
      marksAt lines (start + 1) = false ∧
        ((∃ k, start + 1 < k ∧ marksAt lines k = true) ∨
          fallback = true ∧ start + 1 < lines.length) := by
  rcases exists_isFirstMark_or lines start with ⟨k, hk⟩ | hnone
  · rw [bodyEnd_of_isFirstMark hk]
    have hlt := hk.lt
    constructor
    · intro h
      exact ⟨hk.unmarked _ (by omega) (by omega), .inl ⟨k, by omega, hk.marks⟩⟩
    · rintro ⟨h, -⟩
      have hne : k ≠ start + 1 := fun e => by simp [e ▸ hk.marks] at h
      omega
  · rw [bodyEnd_of_forall_unmarked hnone]
    have hopen : (start : Int) < openEnd fallback lines ↔
        fallback = true ∧ start + 1 < lines.length := by
      cases fallback with
      | false => simp [openEnd]
      | true =>
        simp only [openEnd, if_true, true_and]
        omega
    rw [hopen]
    constructor
    · exact fun h => ⟨hnone _ (by omega), .inr h⟩
    · rintro ⟨-, ⟨k, hk, hm⟩ | h⟩
      · simp [hnone k (by omega)] at hm
      · exact h

/-! ## The lines of a body -/

/-- **The text of a body that starts on a line of the file is the lines from there up to its end.**
An end beyond the file cuts nothing off. -/
theorem sliceBody_natCast (lines : List String) (start : Nat) (stop : Int) :
    sliceBody lines start stop = "\n".intercalate ((lines.take stop.toNat).drop start) := by
  rw [sliceBody]
  split
  · -- The range is empty or inverted, and then no line of the first ones is left behind the start.
    have hnone : (lines.take stop.toNat).drop start = [] := by
      rw [List.drop_eq_nil_iff, List.length_take]
      omega
    rw [hnone]
    rfl
  · have hstop : lines.take (position lines.length stop) = lines.take stop.toNat := by
      rw [position, if_neg (by omega), ← List.take_take, List.take_length]
    have hstart : (lines.take stop.toNat).drop (position lines.length start) =
        (lines.take stop.toNat).drop start := by
      rw [position, if_neg (by omega), Int.toNat_natCast]
      rcases Nat.le_total start lines.length with h | h
      · rw [Nat.min_eq_left h]
      · rw [Nat.min_eq_right h, List.drop_eq_nil_of_le (List.length_take_le' _ _),
          List.drop_eq_nil_of_le (Nat.le_trans (List.length_take_le' _ _) h)]
    rw [hstop, hstart]

/-- A slice that ends at zero is empty, as the one of a member that is not found. -/
theorem sliceBody_zero (lines : List String) (start : Nat) : sliceBody lines start 0 = "" := by
  rw [sliceBody, if_pos (Int.natCast_nonneg start)]

end MemberHarvest.Body
