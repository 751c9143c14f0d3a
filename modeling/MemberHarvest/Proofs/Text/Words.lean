import Mathlib.Data.List.DropRight
import MemberHarvest.Text.Blank

/-!
# Proofs/Text/Words — the last word of a text

A blank divides the words in front of it from those behind it (`words_append_cons`). So blanks at
the end of a text add no word, and the characters in front of them, back to the next blank, are the
last word. `EndsInWord` describes this word without cutting the text, and `endsInWord_iff` says that
it is the last one.
-/

namespace MemberHarvest.Text

variable {as bs cs w : List Char} {c : Char}

/-! ## Words -/

/-- **A blank divides the words in front of it from those behind it.** Blanks that stand side by
side divide once. -/
theorem words_append_cons (hc : isBlank c = true) (as bs : List Char) :
    words (as ++ c :: bs) = words as ++ words bs := by
  rw [words, List.splitOnP_append_cons _ _ hc, List.filter_append]
  rfl

theorem words_of_forall (hne : w ≠ []) (h : ∀ c ∈ w, isBlank c = false) : words w = [w] := by
  rw [words, List.splitOnP_eq_singleton h]
  simp [hne]

/-- Blanks at the end of a text add no word. -/
theorem words_append_of_blank (as : List Char) (h : ∀ c ∈ bs, isBlank c = true) :
    words (as ++ bs) = words as := by
  induction bs generalizing as with
  | nil => rw [List.append_nil]
  | cons b bs ih =>
    obtain ⟨hb, hbs⟩ := List.forall_mem_cons.1 h
    have hnone : words bs = [] := ih [] hbs
    rw [words_append_cons hb, hnone, List.append_nil]

/-- A word at the end of a text, behind a blank or alone, is one word more. -/
theorem words_append_word (has : ∀ c ∈ as.getLast?, isBlank c = true) (hne : w ≠ [])
    (hw : ∀ c ∈ w, isBlank c = false) : words (as ++ w) = words as ++ [w] := by
  rcases List.eq_nil_or_concat as with rfl | ⟨front, b, rfl⟩
  · exact words_of_forall hne hw
  · have hb : isBlank b = true := has b (by simp)
    rw [List.concat_eq_append, List.append_assoc, List.singleton_append, words_append_cons hb,
      words_append_cons hb, words_of_forall hne hw, words_nil, List.append_nil]

/-! ## The last word -/

/-- A text ends in a word, blanks behind it aside: the word stands behind a blank or alone. A text
of blanks ends in the empty word. -/
inductive EndsInWord : List Char → List Char → Prop
  | blank {cs : List Char} (h : ∀ c ∈ cs, isBlank c = true) : EndsInWord cs []
  | word {front w gap : List Char} (front_blank : ∀ c ∈ front.getLast?, isBlank c = true)
    (ne_nil : w ≠ [])
      (plain : ∀ c ∈ w, isBlank c = false) (gap_blank : ∀ c ∈ gap, isBlank c = true) :
    EndsInWord (front ++ w ++ gap) w

namespace EndsInWord

/-- The last word is the one that the text ends in. -/
theorem lastWord_eq (h : EndsInWord cs w) : lastWord cs = w := by
  cases h with
  | blank h =>
    have hnone : words cs = [] := words_append_of_blank [] h
    rw [lastWord, hnone]
    rfl
  | word front_blank ne_nil plain gap_blank =>
    rw [lastWord, words_append_of_blank _ gap_blank, words_append_word front_blank ne_nil plain,
      List.getLast?_concat, Option.getD_some]

/-- The word stands in the text. -/
theorem isInfix (h : EndsInWord cs w) : w <:+: cs := by
  cases h with
  | blank => exact List.nil_infix
  | @word front _ gap => exact ⟨front, gap, rfl⟩

end EndsInWord

/-- A text whose last character is not blank ends in a word, whatever blanks are put behind it. -/
theorem exists_endsInWord_append {gap : List Char} (hne : cs ≠ [])
    (hlast : isBlank (cs.getLast hne) = false) (hgap : ∀ c ∈ gap, isBlank c = true) :
    ∃ w, EndsInWord (cs ++ gap) w := by
  have hword : EndsInWord
      (cs.rdropWhile (fun c => !isBlank c) ++ cs.rtakeWhile (fun c => !isBlank c) ++ gap)
      (cs.rtakeWhile fun c => !isBlank c) := by
    refine .word (fun c hc => ?_) (fun h => ?_) (fun c hc => ?_) hgap
    · obtain ⟨hfront, rfl⟩ := List.mem_getLast?_eq_getLast hc
      simpa using List.rdropWhile_last_not _ _ hfront
    · exact List.rtakeWhile_eq_nil_iff.1 h hne (by simp [hlast])
    · simpa using List.mem_rtakeWhile_imp hc
  rw [List.rdropWhile_append_rtakeWhile] at hword
  exact ⟨_, hword⟩

/-- Each text ends in a word, which may be empty. -/
theorem exists_endsInWord (cs : List Char) : ∃ w, EndsInWord cs w := by
  by_cases hblank : ∀ c ∈ cs, isBlank c = true
  · exact ⟨[], .blank hblank⟩
  · have hne : cs.rdropWhile isBlank ≠ [] := fun h => hblank (List.rdropWhile_eq_nil_iff.1 h)
    have hlast : ¬ isBlank ((cs.rdropWhile isBlank).getLast hne) = true :=
      List.rdropWhile_last_not _ _ hne
    have hgap : ∀ c ∈ cs.rtakeWhile isBlank, isBlank c = true := fun c => List.mem_rtakeWhile_imp
    have hword := exists_endsInWord_append hne (by simpa using hlast) hgap
    rwa [List.rdropWhile_append_rtakeWhile] at hword

/-- **The last word of a text is the one that it ends in.** So it can be told without cutting the
text into words. -/
theorem endsInWord_iff : EndsInWord cs w ↔ lastWord cs = w := by
  refine ⟨EndsInWord.lastWord_eq, ?_⟩
  rintro rfl
  obtain ⟨w, h⟩ := exists_endsInWord cs
  rwa [h.lastWord_eq]

end MemberHarvest.Text
