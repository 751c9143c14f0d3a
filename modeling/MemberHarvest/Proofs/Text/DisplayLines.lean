import MemberHarvest.Proofs.Text.LineEnds

/-!
# Proofs/Text/DisplayLines — the lines that a display shows

A display breaks a text at more characters than `\r` and `\n`. `Displays` tells how a text is built
from the lines that it shows: line by line, each with `\r\n` or with one character that breaks it,
and a last one that needs neither unless it is empty. Every text shows just the lines that it is
built from (`displayLines_eq_iff`).
-/

namespace MemberHarvest.Text

/-- Whether no character of a text ends a displayed line. -/
def IsUnbroken (cs : List Char) : Prop := ∀ c ∈ cs, isDisplayBreak c = false

instance (cs : List Char) : Decidable (IsUnbroken cs) :=
  List.decidableBAll (fun c => isDisplayBreak c = false) cs

/-- A text is built from the lines that a display shows. -/
inductive Displays : List Char → List (List Char) → Prop
  | nil : Displays [] []
  | last {l : List Char} (unbroken : IsUnbroken l) (nonempty : l ≠ []) : Displays l [l]
  | pair {l cs : List Char} {ls : List (List Char)} (unbroken : IsUnbroken l)
    (behind : Displays cs ls) :
    Displays (l ++ '\r' :: '\n' :: cs) (l :: ls)
  | single {l cs : List Char} {ls : List (List Char)} {c : Char} (unbroken : IsUnbroken l)
    (ends : isDisplayBreak c = true) (apart : c = '\r' → cs.head? ≠ some '\n')
    (behind : Displays cs ls) :
    Displays (l ++ c :: cs) (l :: ls)

variable {l cs : List Char} {ls : List (List Char)} {c : Char}

theorem IsUnbroken.isPlain (hl : IsUnbroken l) : IsPlain l := by
  intro c hc
  have hbreak := hl c hc
  constructor <;> rintro rfl <;> exact absurd hbreak (by decide)

/-- A break behind which no `\n` would add to it is one of the unified text, as itself or as
`\n`. -/
theorem unifyNewlines_break (ends : isDisplayBreak c = true)
    (apart : c = '\r' → cs.head? ≠ some '\n') :
    ∃ d, isDisplayBreak d = true ∧ unifyNewlines (c :: cs) = d :: unifyNewlines cs := by
  by_cases hc : c = '\r'
  · subst hc
    exact ⟨'\n', by decide, unifyNewlines_chars (e := .cr) fun _ => apart rfl⟩
  · exact ⟨c, ends, unifyNewlines_cons hc cs⟩

/-- **A text shows the lines that it is built from.** The induction is on how the text is built, one
line and its end at a time. -/
theorem displayLines_of_displays (h : Displays cs ls) : displayLines cs = ls := by
  induction h with
  | nil => rfl
  | @last l unbroken nonempty =>
    have hunify := unifyNewlines_append unbroken.isPlain []
    rw [List.append_nil, unifyNewlines, List.append_nil] at hunify
    rw [displayLines, hunify, linesBy_of_forall unbroken, if_neg nonempty]
  | @pair l cs ls unbroken _ ih =>
    rw [displayLines, unifyNewlines_append unbroken.isPlain, unifyNewlines,
      linesBy_append_cons unbroken (by decide), ← displayLines, ih]
  | @single l cs ls c unbroken ends apart _ ih =>
    obtain ⟨d, hd, hunify⟩ := unifyNewlines_break ends apart
    rw [displayLines, unifyNewlines_append unbroken.isPlain, hunify,
      linesBy_append_cons unbroken hd, ← displayLines, ih]

/-- A character that ends no line goes to the line in front of which it stands. -/
theorem Displays.exists_cons (h : Displays cs ls) (hc : isDisplayBreak c = false) :
    ∃ ls', Displays (c :: cs) ls' := by
  have hunbroken {l : List Char} (hl : IsUnbroken l) : IsUnbroken (c :: l) :=
    List.forall_mem_cons.2 ⟨hc, hl⟩
  cases h with
  | nil => exact ⟨_, .last (hunbroken (List.forall_mem_nil _)) (by simp)⟩
  | last unbroken nonempty => exact ⟨_, .last (hunbroken unbroken) (by simp)⟩
  | pair unbroken behind => exact ⟨_, .pair (hunbroken unbroken) behind⟩
  | single unbroken ends apart behind => exact ⟨_, .single (hunbroken unbroken) ends apart behind⟩

/-- **Every text is built from lines.** So `Displays` says something of each text. -/
theorem exists_displays (cs : List Char) : ∃ ls, Displays cs ls := by
  have hnil : IsUnbroken [] := List.forall_mem_nil _
  fun_induction unifyNewlines cs with
  | case1 => exact ⟨[], .nil⟩
  | case2 cs ih =>
    obtain ⟨ls, h⟩ := ih
    exact ⟨_, .pair hnil h⟩
  | case3 cs hnext ih =>
    obtain ⟨ls, h⟩ := ih
    refine ⟨_, .single hnil (by decide) (fun _ hhead => ?_) h⟩
    obtain ⟨cs, hcs⟩ := List.head?_eq_some_iff.1 hhead
    exact hnext cs hcs
  | case4 c cs hpair hcr ih =>
    obtain ⟨ls, h⟩ := ih
    cases hbreak : isDisplayBreak c with
    | true => exact ⟨_, .single hnil hbreak (fun hc => absurd hc hcr) h⟩
    | false => exact h.exists_cons hbreak

/-- **The displayed lines of a text are those that it is built from.** This is how statements about
a solution speak of its lines. -/
theorem displayLines_eq_iff : displayLines cs = ls ↔ Displays cs ls := by
  constructor
  · rintro rfl
    obtain ⟨ls, h⟩ := exists_displays cs
    exact (displayLines_of_displays h).symm ▸ h
  · exact displayLines_of_displays

end MemberHarvest.Text
