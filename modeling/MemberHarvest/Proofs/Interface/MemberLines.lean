import Mathlib.Data.List.Basic
import Mathlib.Data.List.Forall2
import MemberHarvest.Interface.Declaration
import MemberHarvest.Proofs.Text.Words

/-!
# Proofs/Interface/MemberLines — which line each member of a declaration was read off

A line with a parenthesis names one member: the last word in front of its first parenthesis, or the
empty name where no word stands there (`NamesMember`, `namesMember_iff`). A declaration has one
member for each line that names one, in the order of the lines (`readOff_memberNames`). The name of
a member stands in its line (`NamesMember.isInfix`).
-/

namespace MemberHarvest.Declaration

variable {line member : String} {lines : List String} {i : ℕ}

/-! ## One line -/

/-- A line names a member: the member is the last word in front of the first parenthesis. -/
def NamesMember (line member : String) : Prop :=
  ∃ front rest, line.toList = front ++ '(' :: rest ∧ '(' ∉ front ∧
    Text.EndsInWord front member.toList

/-- A line holds a member where it holds an opening bracket. -/
theorem holdsMember_iff : holdsMember line = true ↔ '(' ∈ line.toList := List.contains_iff_mem

/-- The text in front of the first parenthesis decides the member. -/
theorem memberName_eq_of_append {front rest : List Char}
    (hline : line.toList = front ++ '(' :: rest) (hfront : '(' ∉ front) :
    memberName line = String.ofList (Text.lastWord front) := by
  have hkeep : ∀ c ∈ front, (c != '(') = true := fun c hc => bne_iff_ne.2 fun h => hfront (h ▸ hc)
  rw [memberName, hline, List.takeWhile_append_of_pos hkeep, List.takeWhile_cons_of_neg (by simp),
    List.append_nil]

/-- **A line with a parenthesis names one member,** and a line without one names none. The member is
the last word in front of the parenthesis, which may be empty. -/
theorem namesMember_iff :
    NamesMember line member ↔ holdsMember line = true ∧ memberName line = member := by
  constructor
  · rintro ⟨front, rest, hline, hfront, hword⟩
    refine ⟨holdsMember_iff.2 (by simp [hline]), ?_⟩
    rw [memberName_eq_of_append hline hfront, hword.lastWord_eq, String.ofList_toList]
  · rintro ⟨hholds, rfl⟩
    obtain ⟨front, rest, hline, hfront⟩ := List.eq_append_cons_of_mem (holdsMember_iff.1 hholds)
    refine ⟨front, rest, hline, hfront, Text.endsInWord_iff.2 ?_⟩
    rw [memberName_eq_of_append hline hfront, String.toList_ofList]

/-- **The name of a member stands in its line.** So the line that names a member is among those in
which it is searched for. -/
theorem NamesMember.isInfix (h : NamesMember line member) : member.toList <:+: line.toList := by
  obtain ⟨front, rest, hline, -, hword⟩ := h
  rw [hline]
  exact hword.isInfix.trans (List.prefix_append _ _).isInfix

/-! ## All lines -/

/-- The line with an index names a member. -/
def NamedAt (lines : List String) (i : ℕ) (member : String) : Prop :=
  ∃ l, lines[i]? = some l ∧ NamesMember l member

theorem exists_namedAt_of_mem (h : member ∈ memberNames lines) : ∃ i, NamedAt lines i member := by
  obtain ⟨l, hl, hmember⟩ := List.mem_map.1 h
  obtain ⟨hmem, hholds⟩ := List.mem_filter.1 hl
  obtain ⟨i, hi⟩ := List.mem_iff_getElem?.1 hmem
  exact ⟨i, l, hi, namesMember_iff.2 ⟨hholds, hmember⟩⟩

/-- Members that are read off lines: in ascending order, the indices are those of all lines with a
parenthesis, and the members are what these lines name, line by line. -/
structure ReadOff (lines : List String) (is : List ℕ) (members : List String) : Prop where
  ascending : is.Pairwise (· < ·)
  mem_iff : ∀ i, i ∈ is ↔ ∃ l, lines[i]? = some l ∧ '(' ∈ l.toList
  named : List.Forall₂ (NamedAt lines) is members

/-- The elements that pass a test stand at the indices that are found for the test, in the same
order. -/
theorem forall₂_findIdxs_filter {α : Type} (p : α → Bool) (as : List α) :
    List.Forall₂ (fun i a => as[i]? = some a ∧ p a = true) (as.findIdxs p) (as.filter p) := by
  refine List.forall₂_iff_get.2 ⟨?_, fun k hk hk' => ⟨?_, (List.mem_filter.1 (List.get_mem _ _)).2⟩⟩
  · rw [List.length_findIdxs, List.countP_eq_length_filter]
  · rw [List.get_eq_getElem, List.get_eq_getElem,
      List.getElem_filter_eq_getElem_getElem_findIdxs hk', List.getElem?_eq_getElem]

/-- **A declaration has one member for each line with a parenthesis,** in the order of the lines.
Two lines that name one member give it twice. -/
theorem readOff_memberNames (lines : List String) :
    ReadOff lines (lines.findIdxs holdsMember) (memberNames lines) where
  ascending := List.pairwise_findIdxs
  mem_iff i := by
    simp only [List.mem_findIdxs_iff_exists_getElem_pos, List.getElem?_eq_some_iff, holdsMember_iff]
    constructor
    · rintro ⟨hi, hmem⟩
      exact ⟨_, ⟨hi, rfl⟩, hmem⟩
    · rintro ⟨_, ⟨hi, rfl⟩, hmem⟩
      exact ⟨hi, hmem⟩
  named := by
    refine List.forall₂_map_right_iff.2 ((forall₂_findIdxs_filter holdsMember lines).imp ?_)
    rintro i l ⟨hi, hholds⟩
    exact ⟨l, hi, namesMember_iff.2 ⟨hholds, rfl⟩⟩

/-- Only the first parenthesis of a line counts, and without a word in front of it the name is
empty. -/
example : memberNames ["int Run (int n, (int, int) p);", "return 0;", " ()"] = ["Run", ""] := by
  decide +kernel

end MemberHarvest.Declaration
