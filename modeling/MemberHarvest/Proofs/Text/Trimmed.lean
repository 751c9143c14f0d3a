import Mathlib.Data.List.DropRight
import Mathlib.Data.List.TakeWhile
import MemberHarvest.Text.Blank

/-!
# Proofs/Text/Trimmed — trimmed texts

A text is trimmed if it does not begin or end with a blank (`trim_eq_self_iff`). What has been
trimmed is trimmed (`trim_trim`).
-/

namespace MemberHarvest.Text

variable {as bs cs : List Char} {c : Char}

/-- A text is trimmed if it does not begin or end with a blank. -/
theorem trim_eq_self_iff : trim cs = cs ↔
    (∀ h : 0 < cs.length, ¬ isBlank cs[0] = true) ∧ ∀ h :
    cs ≠ [], ¬ isBlank (cs.getLast h) = true := by
  rw [← List.dropWhile_eq_self_iff, ← List.rdropWhile_eq_self_iff]
  constructor
  · intro h
    have hstart : trimStart cs <:+ cs := List.dropWhile_suffix _
    have hend : trim cs <+: trimStart cs := List.rdropWhile_prefix _ _
    have hlength := hend.length_le
    rw [h] at hlength
    have hself : trimStart cs = cs := hstart.eq_of_length (Nat.le_antisymm hstart.length_le hlength)
    exact ⟨hself, by rw [trim, hself] at h; exact h⟩
  · rintro ⟨hstart, hend⟩
    rw [trim, trimStart, hstart]
    exact hend

/-- **What has been trimmed is trimmed.** So reading a trimmed text is reading the text. -/
theorem trim_trim (cs : List Char) : trim (trim cs) = trim cs := by
  refine trim_eq_self_iff.2 ⟨fun hlength => ?_, List.rdropWhile_last_not _ _⟩
  have hfront : trim cs <+: trimStart cs := List.rdropWhile_prefix _ _
  have hstart : trimStart (trimStart cs) = trimStart cs := List.dropWhile_idempotent _ _
  rw [hfront.getElem hlength]
  exact List.dropWhile_eq_self_iff.1 hstart _

theorem mem_of_mem_trim (h : c ∈ trim cs) : c ∈ cs := by
  have hstart : c ∈ trimStart cs := by
    simpa using (List.dropWhile_sublist isBlank).mem (List.mem_reverse.1 h)
  exact (List.dropWhile_sublist isBlank).mem hstart

/-- Trimming leaves every character that is not blank. -/
theorem mem_trim (hmem : c ∈ cs) (hc : isBlank c = false) : c ∈ trim cs := by
  have hkeep {cs : List Char} (hmem : c ∈ cs) : c ∈ cs.dropWhile isBlank := by
    have hsplit := List.takeWhile_append_dropWhile (p := isBlank) (l := cs)
    rw [← hsplit] at hmem
    refine (List.mem_append.1 hmem).resolve_left fun hfront => ?_
    rw [List.mem_takeWhile_imp hfront] at hc
    exact Bool.noConfusion hc
  exact List.mem_reverse.2 (hkeep (List.mem_reverse.2 (hkeep hmem)))

/-- **Trimmed texts with a slash between them are a trimmed text,** if the first is not empty. A
slash is not blank, so the inner ends are safe, and the outer ones are by hypothesis. -/
theorem trim_append_slash (ha : trim as = as) (hb : trim bs = bs) (hne : as ≠ []) :
    trim (as ++ '/' :: bs) = as ++ '/' :: bs := by
  obtain ⟨hfirst, -⟩ := trim_eq_self_iff.1 ha
  obtain ⟨-, hlast⟩ := trim_eq_self_iff.1 hb
  refine trim_eq_self_iff.2 ⟨fun _ => ?_, fun _ => ?_⟩
  · rw [List.getElem_append_left (List.length_pos_of_ne_nil hne)]
    exact hfirst _
  · rw [List.getLast_append_of_ne_nil _ (List.cons_ne_nil '/' bs)]
    by_cases hbs : bs = []
    · subst hbs
      decide
    · rw [List.getLast_cons hbs]
      exact hlast hbs

theorem trim_of_forall (h : ∀ c ∈ cs, isBlank c = false) : trim cs = cs := by
  refine trim_eq_self_iff.2 ⟨fun hlength => ?_, fun hne => ?_⟩
  · rw [h _ (List.getElem_mem hlength)]
    exact Bool.false_ne_true
  · rw [h _ (List.getLast_mem hne)]
    exact Bool.false_ne_true

/-- A map that keeps blanks and makes none keeps what is trimmed. -/
theorem trim_map {f : Char → Char} (h : ∀ c, isBlank (f c) = isBlank c) (cs : List Char) :
    trim (cs.map f) = (trim cs).map f := by
  have hcomp : isBlank ∘ f = isBlank := funext h
  rw [trim, trimEnd, trimStart, List.dropWhile_map, hcomp, ← List.map_reverse,
    List.dropWhile_map, hcomp, ← List.map_reverse]
  rfl

end MemberHarvest.Text
