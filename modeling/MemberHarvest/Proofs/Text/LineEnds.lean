import Mathlib.Data.List.Chain
import MemberHarvest.Text.Lines

/-!
# Proofs/Text/LineEnds — lines, and the texts they are written as

A text lays out lines: each of them is followed by one of three ends, and only a last line that is
not empty may go without (`Layout`). A layout is legible if its lines hold no character that ends a
line, and no `\r` is followed by an `\n` of its own, which would read as the one end `\r\n`. The
lines of a legible layout are read back (`sourceLines_text`), and every text has a legible layout
(`exists_layout`). So a text is cut at these three ends and nowhere else
(`Layout.exists_infix_lines`).
-/

namespace MemberHarvest.Text

/-! ## Layouts -/

/-- What may end a line. -/
inductive LineEnd where
  | crlf
  | cr
  | lf
  deriving DecidableEq, Repr

/-- The characters of an end. -/
def LineEnd.chars : LineEnd → List Char
  | .crlf => ['\r', '\n']
  | .cr => ['\r']
  | .lf => ['\n']

/-- Whether no character of a text ends a line. -/
def IsPlain (cs : List Char) : Prop := ∀ c ∈ cs, c ≠ '\r' ∧ c ≠ '\n'

instance (cs : List Char) : Decidable (IsPlain cs) :=
  List.decidableBAll (fun c => c ≠ '\r' ∧ c ≠ '\n') cs

/-- Lines with their ends, and what stands behind the last end. -/
structure Layout where
  ended : List (List Char × LineEnd)
  rest : List Char

namespace Layout

/-- The text that a layout stands for. -/
def text (d : Layout) : List Char := d.ended.flatMap (fun l => l.1 ++ l.2.chars) ++ d.rest

/-- The lines of a layout: what stands behind the last end is a line unless it is empty. -/
def lines (d : Layout) : List (List Char) :=
  d.ended.map (·.1) ++ if d.rest = [] then [] else [d.rest]

/-- Put a line in front. -/
def cons (l : List Char) (e : LineEnd) (d : Layout) : Layout := ⟨(l, e) :: d.ended, d.rest⟩

/-- A layout is what stands behind its last end, with lines put in front. -/
@[elab_as_elim, induction_eliminator]
theorem induct {motive : Layout → Prop} (last : ∀ rest, motive ⟨[], rest⟩)
    (cons : ∀ l e d, motive d → motive (cons l e d)) (d : Layout) : motive d := by
  obtain ⟨ended, rest⟩ := d
  induction ended with
  | nil => exact last rest
  | cons l ended ih => exact cons l.1 l.2 ⟨ended, rest⟩ ih

@[simp] theorem text_last (rest : List Char) : text ⟨[], rest⟩ = rest := rfl

@[simp] theorem text_cons (l : List Char) (e : LineEnd) (d : Layout) :
    (d.cons l e).text = l ++ (e.chars ++ d.text) := by
  simp [cons, text]

theorem lines_last (rest : List Char) : lines ⟨[], rest⟩ = if rest = [] then [] else [rest] := rfl

@[simp] theorem lines_cons (l : List Char) (e : LineEnd) (d : Layout) :
    (d.cons l e).lines = l :: d.lines := rfl

/-- Whether the lines of a layout hold no end, and no line that `\r` ends stands before an empty
line that `\n` ends. -/
structure Legible (d : Layout) : Prop where
  plain : ∀ l ∈ d.lines, IsPlain l
  apart : d.ended.IsChain fun l l' => ¬ (l.2 = .cr ∧ l' = ([], .lf))

end Layout

variable {l m cs rest : List Char} {d : Layout} {e : LineEnd}

/-- The last line is plain if the rest of the text is. -/
theorem forall_isPlain_lines_last : (∀ l ∈ Layout.lines ⟨[], rest⟩, IsPlain l) ↔ IsPlain rest := by
  rw [Layout.lines_last]
  split
  · rename_i hrest
    simp [hrest, IsPlain]
  · exact List.forall_mem_singleton

/-- Where lines hold no end, their text begins with `\n` just if `\n` ends the first line and that
line is empty. -/
theorem head?_text_eq_iff (h : ∀ l ∈ d.lines, IsPlain l) :
    d.text.head? = some '\n' ↔ d.ended.head? = some ([], .lf) := by
  cases d using Layout.induct with
  | last rest =>
    have hhead : rest.head? ≠ some '\n' :=
      fun hhead => (forall_isPlain_lines_last.1 h _ (List.mem_of_head? hhead)).2 rfl
    simpa using hhead
  | cons l e d =>
    have hl : IsPlain l := h l List.mem_cons_self
    rw [Layout.text_cons]
    cases l with
    | nil => cases e <;> simp [Layout.cons, LineEnd.chars]
    | cons c l => simpa [Layout.cons] using (hl c List.mem_cons_self).2

/-- A single line is legible if it is plain. -/
theorem legible_last_iff : Layout.Legible ⟨[], rest⟩ ↔ IsPlain rest :=
  ⟨fun h => forall_isPlain_lines_last.1 h.plain,
    fun h => ⟨forall_isPlain_lines_last.2 h, List.isChain_nil⟩⟩

/-- **Legibility is a matter of the first line and of what its end stands before.** A carriage
return in front of a newline would be taken for one end with it. -/
theorem legible_cons_iff :
    (d.cons l e).Legible ↔ IsPlain l ∧ (e = .cr → d.text.head? ≠ some '\n') ∧ d.Legible := by
  have hplain : (∀ l' ∈ (d.cons l e).lines, IsPlain l') ↔ IsPlain l ∧ ∀ l' ∈ d.lines, IsPlain l' :=
    List.forall_mem_cons
  have hapart : (d.cons l e).ended.IsChain (fun l l' => ¬ (l.2 = .cr ∧ l' = ([], .lf))) ↔
      (e = .cr → d.ended.head? ≠ some ([], .lf)) ∧ d.ended.IsChain fun l l' =>
        ¬ (l.2 = .cr ∧ l' = ([], .lf)) := by
    rw [Layout.cons, List.isChain_cons]
    refine and_congr_left fun _ => ?_
    cases d.ended.head? <;> simp
  constructor
  · rintro ⟨hp, ha⟩
    obtain ⟨hl, hd⟩ := hplain.1 hp
    rw [hapart, ne_eq, ← head?_text_eq_iff hd] at ha
    exact ⟨hl, ha.1, hd, ha.2⟩
  · rintro ⟨hl, hnext, hd⟩
    rw [ne_eq, head?_text_eq_iff hd.plain] at hnext
    exact ⟨hplain.2 ⟨hl, hd.plain⟩, hapart.2 ⟨hnext, hd.apart⟩⟩

/-! ## Reading a layout -/

theorem unifyNewlines_cons {c : Char} (hc : c ≠ '\r') (cs : List Char) :
    unifyNewlines (c :: cs) = c :: unifyNewlines cs := by
  rw [unifyNewlines.eq_def]
  split <;> simp_all

/-- Plain text in front is left alone by unifying newlines. -/
theorem unifyNewlines_append (hl : IsPlain l) (cs : List Char) :
    unifyNewlines (l ++ cs) = l ++ unifyNewlines cs := by
  induction l with
  | nil => rfl
  | cons c l ih =>
    obtain ⟨hc, hl⟩ := List.forall_mem_cons.1 hl
    rw [List.cons_append, unifyNewlines_cons hc.1, ih hl, List.cons_append]

/-- Each end is read as one, unless what follows adds to it. -/
theorem unifyNewlines_chars (h : e = .cr → cs.head? ≠ some '\n') :
    unifyNewlines (e.chars ++ cs) = '\n' :: unifyNewlines cs := by
  cases e with
  | crlf => rfl
  | lf => rfl
  | cr =>
    rw [LineEnd.chars, List.singleton_append, unifyNewlines]
    rintro cs rfl
    exact h rfl rfl

/-- A line reaches up to the first character of the class. -/
theorem linesBy_append_cons {p : Char → Bool} {c : Char}
    (hl : ∀ c ∈ l, p c = false) (hc : p c = true) (cs : List Char) :
    linesBy p (l ++ c :: cs) = l :: linesBy p cs := by
  induction l with
  | nil => rw [List.nil_append, linesBy, if_pos hc]
  | cons d l ih =>
    obtain ⟨hd, hl⟩ := List.forall_mem_cons.1 hl
    simp [linesBy, hd, ih hl, consHead]

/-- Text without a line end is one line, or none if it is empty. -/
theorem linesBy_of_forall {p : Char → Bool} (hl : ∀ c ∈ l, p c = false) :
    linesBy p l = if l = [] then [] else [l] := by
  induction l with
  | nil => rfl
  | cons c l ih =>
    obtain ⟨hc, hl⟩ := List.forall_mem_cons.1 hl
    rw [linesBy, if_neg (by simpa using hc), ih hl, if_neg (List.cons_ne_nil c l)]
    split
    · rename_i hnil
      rw [hnil, consHead]
    · rw [consHead]

theorem IsPlain.forall_ne (hl : IsPlain l) : ∀ c ∈ l, (c == '\n') = false :=
  fun c hc => beq_eq_false_iff_ne.2 (hl c hc).2

/-- **The first line of a text reaches up to its end,** and the other lines are those of the text
behind it. Newlines are unified before the text is cut. -/
theorem sourceLines_append (hl : IsPlain l) (h : e = .cr → cs.head? ≠ some '\n') :
    sourceLines (l ++ (e.chars ++ cs)) = l :: sourceLines cs := by
  rw [sourceLines, unifyNewlines_append hl, unifyNewlines_chars h,
    linesBy_append_cons hl.forall_ne (beq_self_eq_true '\n'), sourceLines]

/-- **The lines of a legible layout are read back,** whatever their ends. The induction is on the
layout. -/
theorem sourceLines_text (h : d.Legible) : sourceLines d.text = d.lines := by
  induction d with
  | last rest =>
    have hrest : IsPlain rest := legible_last_iff.1 h
    have hunify := unifyNewlines_append hrest []
    rw [List.append_nil, unifyNewlines, List.append_nil] at hunify
    rw [Layout.text_last, sourceLines, hunify, linesBy_of_forall hrest.forall_ne, Layout.lines_last]
  | cons l e d ih =>
    obtain ⟨hl, hnext, hd⟩ := legible_cons_iff.1 h
    rw [Layout.text_cons, sourceLines_append hl hnext, ih hd, Layout.lines_cons]

/-! ## Laying out a text -/

/-- A character that ends no line goes to the line in front of which it stands. -/
theorem exists_layout_cons (h : d.Legible) {c : Char} (hc : c ≠ '\r' ∧ c ≠ '\n') :
    ∃ d' : Layout, d'.Legible ∧ d'.text = c :: d.text := by
  cases d using Layout.induct with
  | last rest =>
    exact ⟨⟨[], c :: rest⟩, legible_last_iff.2 (List.forall_mem_cons.2 ⟨hc, legible_last_iff.1 h⟩),
      rfl⟩
  | cons l e d =>
    obtain ⟨hl, hd⟩ := legible_cons_iff.1 h
    exact ⟨d.cons (c :: l) e, legible_cons_iff.2 ⟨List.forall_mem_cons.2 ⟨hc, hl⟩, hd⟩, by simp⟩

/-- **Every text has a legible layout.** It is found by cutting the text at its first end, again and
again. -/
theorem exists_layout (cs : List Char) : ∃ d : Layout, d.Legible ∧ d.text = cs := by
  have hnil : IsPlain [] := List.forall_mem_nil _
  fun_induction unifyNewlines cs with
  | case1 => exact ⟨⟨[], []⟩, legible_last_iff.2 hnil, rfl⟩
  | case2 cs ih =>
    obtain ⟨d, h, rfl⟩ := ih
    exact ⟨d.cons [] .crlf, legible_cons_iff.2 ⟨hnil, by simp, h⟩, Layout.text_cons ..⟩
  | case3 cs hnext ih =>
    obtain ⟨d, h, rfl⟩ := ih
    refine ⟨d.cons [] .cr, legible_cons_iff.2 ⟨hnil, fun _ hhead => ?_, h⟩, Layout.text_cons ..⟩
    obtain ⟨cs, hcs⟩ := List.head?_eq_some_iff.1 hhead
    exact hnext cs hcs
  | case4 c cs hpair hcr ih =>
    obtain ⟨d, h, rfl⟩ := ih
    by_cases hlf : c = '\n'
    · subst hlf
      exact ⟨d.cons [] .lf, legible_cons_iff.2 ⟨hnil, by simp, h⟩, Layout.text_cons ..⟩
    · exact exists_layout_cons h ⟨hcr, hlf⟩

/-! ## Runs without line ends -/

section Sides

variable {α : Type} {x : α} {m a b : List α}

/-- A beginning without a character stops in front of it. -/
theorem prefix_of_not_mem (hx : x ∉ m) (h : m <+: a ++ x :: b) : m <+: a := by
  rcases List.prefix_or_prefix_of_prefix h (List.prefix_append a (x :: b)) with hm | ⟨m', rfl⟩
  · exact hm
  · rw [List.prefix_append_right_inj] at h
    rcases List.prefix_cons_iff.1 h with rfl | ⟨m'', rfl, -⟩
    · exact (List.append_nil a).symm ▸ List.prefix_rfl
    · simp at hx

/-- What stands in a text and does not hold a character stands on one side of it. -/
theorem infix_or_infix_of_not_mem (hx : x ∉ m) (h : m <:+: a ++ x :: b) : m <:+: a ∨ m <:+: b := by
  induction a with
  | nil =>
    rcases List.infix_cons_iff.1 h with hbegins | hinfix
    · exact .inl (prefix_of_not_mem hx hbegins).isInfix
    · exact .inr hinfix
  | cons y a ih =>
    rcases List.infix_cons_iff.1 h with hbegins | hinfix
    · exact .inl (prefix_of_not_mem hx hbegins).isInfix
    · exact (ih hinfix).imp_left List.infix_cons

end Sides

/-- **A run of characters that end no line stands in one line.** Such a run never reaches over an
end, since ends consist of characters that it does not have. -/
theorem Layout.exists_infix_lines (hm : IsPlain m) (hne : m ≠ []) (h : m <:+: d.text) :
    ∃ l ∈ d.lines, m <:+: l := by
  have hcr : '\r' ∉ m := fun hmem => (hm _ hmem).1 rfl
  have hlf : '\n' ∉ m := fun hmem => (hm _ hmem).2 rfl
  induction d with
  | last rest =>
    have hrest : rest ≠ [] := by
      rintro rfl
      exact hne (List.infix_nil.1 h)
    rw [lines_last, if_neg hrest]
    exact ⟨rest, List.mem_singleton_self rest, h⟩
  | cons l e d ih =>
    rw [text_cons] at h
    have hsplit : m <:+: l ∨ m <:+: d.text := by
      cases e with
      | cr => exact infix_or_infix_of_not_mem hcr h
      | lf => exact infix_or_infix_of_not_mem hlf h
      | crlf =>
        rcases infix_or_infix_of_not_mem hcr h with hl | hbehind
        · exact .inl hl
        · refine (infix_or_infix_of_not_mem (a := []) hlf hbehind).imp_left fun hnil => ?_
          exact absurd (List.infix_nil.1 hnil) hne
    rcases hsplit with hl | hbehind
    · exact ⟨l, List.mem_cons_self, hl⟩
    · obtain ⟨l', hl', hinfix⟩ := ih hbehind
      exact ⟨l', List.mem_cons_of_mem _ hl', hinfix⟩

end MemberHarvest.Text
