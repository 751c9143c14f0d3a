import Mathlib.Tactic.ByContra
import MemberHarvest.Member.Body

/-!
# Proofs/Member/BodySearch — the search for a body's end from any whole number

The search looks at one index after the other, up to the last line (`searchFrom`). From a negative
index it counts the lines from the end, crosses zero and goes through the file again; an index in
front of the first line has no line, and the search breaks off there. `bodyEndAt?` is this search
(`bodyEndAt?_eq_searchFrom`), and what it finds is the least index whose line marks a member
(`bodyEndAt?_cases`). It breaks off on its first index or never: behind an index that has a line,
every further one has a line (`linesFrom?_cons`).
-/

namespace MemberHarvest.Body

variable {fallback : Bool} {lines : List String} {i k : Int}

/-- The line with an index; a negative index counts from the end. -/
def lineAt? (lines : List String) (k : Int) : Option String :=
  if 0 ≤ k then lines[k.toNat]?
  else if k < -lines.length then none
  else lines[(lines.length + k).toNat]?

/-- Whether the line with an index speaks of something public or private; a negative index counts
from the end. -/
def marksAtInt (lines : List String) (k : Int) : Bool := (lineAt? lines k).any marksMember

/-- The search that looks at an index and then at those behind it: the index in front of the first
line that marks a member, the open end where no line does, and nothing where an index has no
line. -/
def searchFrom (fallback : Bool) (lines : List String) (k : Int) : Option Int :=
  if k < lines.length then
    match lineAt? lines k with
    | none => none
    | some line => if marksMember line then some (k - 1) else searchFrom fallback lines (k + 1)
  else some (openEnd fallback lines)
termination_by (lines.length - k).toNat

/-- `k` is the least index from `i` on, in front of the end of the file, whose line marks a
member. -/
structure IsFirstMarkFrom (lines : List String) (i k : Int) : Prop where
  le : i ≤ k
  lt : k < lines.length
  marks : marksAtInt lines k = true
  unmarked : ∀ j, i ≤ j → j < k → marksAtInt lines j = false

/-! ## The lines from an index on -/

/-- From the end of the list on there is nothing left to look at. -/
theorem linesFrom?_of_length_le (h : lines.length ≤ k) : linesFrom? lines k = some [] := by
  rw [linesFrom?, if_pos (by omega), List.drop_eq_nil_of_le (by omega)]

/-- A place before the first line, counted from the end, is none. -/
theorem linesFrom?_of_lt (h : k < -lines.length) : linesFrom? lines k = none := by
  rw [linesFrom?, if_neg (by omega), if_pos h]

/-- **From an index that has a line, it is this line and then the lines from the next index on.**
Where the index is below zero, it counts from the end, as does the one behind it until it comes to
zero. -/
theorem linesFrom?_cons (hle : -lines.length ≤ k) (hlt : k < lines.length) :
    ∃ line behind, lineAt? lines k = some line ∧ linesFrom? lines (k + 1) = some behind ∧
      linesFrom? lines k = some (line :: behind) := by
  by_cases hk : 0 ≤ k
  · have hnext : (k + 1).toNat = k.toNat + 1 := by omega
    have hin : k.toNat < lines.length := by omega
    refine ⟨lines[k.toNat], lines.drop (k + 1).toNat, ?_, ?_, ?_⟩
    · rw [lineAt?, if_pos hk, List.getElem?_eq_getElem hin]
    · rw [linesFrom?, if_pos (by omega)]
    · rw [linesFrom?, if_pos hk, List.drop_eq_getElem_cons hin, hnext]
  · have hin : (lines.length + k).toNat < lines.length := by omega
    have hnext : (lines.length + (k + 1)).toNat = (lines.length + k).toNat + 1 := by omega
    refine ⟨lines[(lines.length + k).toNat], lines.drop (lines.length + (k + 1)).toNat ++ lines,
      ?_, ?_, ?_⟩
    · rw [lineAt?, if_neg hk, if_neg (by omega), List.getElem?_eq_getElem hin]
    · -- Behind the index -1 comes the index 0, where the whole file is still to be looked at.
      by_cases hcross : k = -1
      · have hbehind : lines.drop (lines.length + (k + 1)).toNat = [] :=
          List.drop_eq_nil_of_le (by omega)
        have hzero : (k + 1).toNat = 0 := by omega
        rw [linesFrom?, if_pos (by omega), hbehind, hzero, List.nil_append, List.drop_zero]
      · rw [linesFrom?, if_neg (by omega), if_neg (by omega)]
    · rw [linesFrom?, if_neg hk, if_neg (by omega), List.drop_eq_getElem_cons hin,
        hnext, List.cons_append]

/-- There is a line at each place between minus the length of the list and the length. -/
theorem isSome_lineAt? (hle : -lines.length ≤ k) (hlt : k < lines.length) :
    ∃ line, lineAt? lines k = some line := by
  obtain ⟨line, -, hline, -⟩ := linesFrom?_cons hle hlt
  exact ⟨line, hline⟩

/-! ## The search -/

/-- One step of the search: a line that marks a member ends it, another one is passed over. -/
theorem bodyEndAt?_succ (hle : -lines.length ≤ i + 1) (hlt : i + 1 < lines.length) {line : String}
    (hline : lineAt? lines (i + 1) = some line) :
    bodyEndAt? fallback lines i = if marksMember line then some i
      else bodyEndAt? fallback lines (i + 1) := by
  obtain ⟨line', behind, hline', hbehind, hlines⟩ := linesFrom?_cons hle hlt
  obtain rfl := Option.some.inj (hline.symm.trans hline')
  rw [bodyEndAt?, bodyEndAt?, hlines, hbehind, Option.map_some, Option.map_some, endAmong, endAmong,
    List.findIdx?_cons]
  cases marksMember line with
  | true => simp
  | false =>
    cases behind.findIdx? marksMember with
    | none => rfl
    | some d =>
      simp only [Option.map_some, Bool.false_eq_true, if_false, Option.some.injEq]
      omega

/-- **The end of a body is searched index by index.** Both find the first mark behind the start, one
by slicing and one by going on. -/
theorem bodyEndAt?_eq_searchFrom (fallback : Bool) (lines : List String) (start : Int) :
    bodyEndAt? fallback lines start = searchFrom fallback lines (start + 1) := by
  induction hn : (lines.length - (start + 1)).toNat generalizing start with
  | zero =>
    rw [searchFrom, if_neg (by omega), bodyEndAt?, linesFrom?_of_length_le (by omega)]
    rfl
  | succ n ih =>
    rw [searchFrom, if_pos (by omega)]
    by_cases hle : -lines.length ≤ start + 1
    · obtain ⟨line, hline⟩ := isSome_lineAt? hle (by omega)
      rw [hline, bodyEndAt?_succ hle (by omega) hline, ih (start + 1) (by omega)]
      simp
    · rw [bodyEndAt?, linesFrom?_of_lt (by omega), lineAt?, if_neg (by omega), if_pos (by omega)]
      rfl

/-! ## What is found -/

/-- A place marks a member if the line there does. -/
theorem marksAtInt_of_lineAt? {line : String} (h : lineAt? lines k = some line) :
    marksAtInt lines k = marksMember line := by
  rw [marksAtInt, h, Option.any_some]

/-- A first mark behind an unmarked line is the first one from this line on, too. -/
theorem IsFirstMarkFrom.of_succ (h : IsFirstMarkFrom lines (i + 1) k)
    (hi : marksAtInt lines i = false) :
    IsFirstMarkFrom lines i k where
  le := by have := h.le; omega
  lt := h.lt
  marks := h.marks
  unmarked j hj hjk := by
    rcases Int.le_iff_eq_or_lt.1 hj with rfl | hlt
    · exact hi
    · exact h.unmarked j (by omega) hjk

/-- **A search that starts on a line ends in front of the first mark,** or openly where there is
none. The induction is on the number of lines between the index and the end of the file. -/
theorem searchFrom_cases (fallback : Bool) (hle : -lines.length ≤ i) :
    (∃ k, IsFirstMarkFrom lines i k ∧ searchFrom fallback lines i = some (k - 1)) ∨
      (∀ k, i ≤ k → k < lines.length → marksAtInt lines k = false) ∧
        searchFrom fallback lines i = some (openEnd fallback lines) := by
  fun_induction searchFrom fallback lines i with
  | case1 i hlt hnone =>
    obtain ⟨line, hline⟩ := isSome_lineAt? hle hlt
    simp [hnone] at hline
  | case2 i hlt line hline hmarks =>
    have hmark : marksAtInt lines i = true := by rw [marksAtInt_of_lineAt? hline, hmarks]
    exact .inl ⟨i, ⟨by omega, hlt, hmark, fun j hj hji => by omega⟩, rfl⟩
  | case3 i hlt line hline hmarks ih =>
    have hmark : marksAtInt lines i = false := by simpa [marksAtInt_of_lineAt? hline] using hmarks
    rcases ih (by omega) with ⟨k, hk, hend⟩ | ⟨hnone, hend⟩
    · exact .inl ⟨k, hk.of_succ hmark, hend⟩
    · refine .inr ⟨fun k hk hkn => ?_, hend⟩
      rcases Int.le_iff_eq_or_lt.1 hk with rfl | hik
      · exact hmark
      · exact hnone k (by omega) hkn
  | case4 i hge => exact .inr ⟨fun k hk hkn => by omega, rfl⟩

/-- **Where the search for the end of a body breaks off, and what it finds otherwise.** It breaks
off where the index behind the start lies in front of the first line; else the end is in front of
the least index from there on whose line marks a member, or open where there is none. From the start
of a body, which is a line of the file or the end of the file, it never breaks off. -/
theorem bodyEndAt?_cases (fallback : Bool) (lines : List String) (start : Int) :
    (bodyEndAt? fallback lines start = none ↔ start + 1 < -lines.length) ∧
      (-lines.length ≤ start + 1 →
        (∃ k, IsFirstMarkFrom lines (start + 1) k ∧
          bodyEndAt? fallback lines start = some (k - 1)) ∨
          (∀ k, start + 1 ≤ k → k < lines.length → marksAtInt lines k = false) ∧
            bodyEndAt? fallback lines start =
              some (if fallback then (lines.length : Int) - 1 else 0)) ∧
      (0 ≤ start → start ≤ lines.length → bodyEndAt? fallback lines start ≠ none) ∧
      ∀ member, startLine lines member ≤ lines.length ∧
        bodyEndAt? fallback lines (startLine lines member) =
          some (bodyEnd fallback lines (startLine lines member)) := by
  have hfound (hle : -lines.length ≤ start + 1) := searchFrom_cases fallback hle
  rw [← bodyEndAt?_eq_searchFrom] at hfound
  have hnone : bodyEndAt? fallback lines start = none ↔ start + 1 < -lines.length := by
    constructor
    · intro h
      by_contra hlt
      rcases hfound (by omega) with ⟨k, -, hend⟩ | ⟨-, hend⟩ <;> simp [h] at hend
    · intro h
      rw [bodyEndAt?, linesFrom?_of_lt h, Option.map_none]
  refine ⟨hnone, hfound, fun hstart _ h => ?_, fun member => ?_⟩
  · have := hnone.1 h
    omega
  · exact ⟨startLine_le lines member, bodyEndAt?_natCast fallback lines _⟩

/-- From the last but one of two lines, the search crosses zero and ends at the first line. -/
example : bodyEndAt? false ["public void A()", "return;"] (-2) = some (-1) := by decide

end MemberHarvest.Body
