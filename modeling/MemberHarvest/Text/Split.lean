/-!
# Text/Split — cutting text at marked characters, and looking for text in text

The library's `splitOnP` cuts at every character of a class and keeps the empty pieces. `linesBy p`
reads the class as terminators, so that the last one opens no further line. `occurs` is the
substring test and `after?` the text behind a first occurrence.
-/

namespace MemberHarvest.Text

/-! ## Separators -/

/-- **No piece holds a separator.** -/
theorem forall_mem_splitOnP (p : Char → Bool) (cs : List Char) :
    ∀ w ∈ cs.splitOnP p, ∀ c ∈ w, p c = false := by
  induction cs with
  | nil => simp
  | cons c cs ih =>
    rw [List.splitOnP_cons_eq_if_modifyHead]
    obtain ⟨v, vs, hs⟩ := List.exists_cons_of_ne_nil (List.splitOnP_ne_nil p cs)
    rw [hs] at ih ⊢
    split
    · simpa using ih
    · rename_i hc
      obtain ⟨hv, hvs⟩ := List.forall_mem_cons.1 ih
      exact List.forall_mem_cons.2 ⟨List.forall_mem_cons.2 ⟨Bool.not_eq_true _ ▸ hc, hv⟩, hvs⟩

/-- Every piece is made of characters of the text. -/
theorem mem_of_mem_splitOnP {p : Char → Bool} {cs w : List Char} {c : Char} (hw : w ∈ cs.splitOnP p)
    (hc : c ∈ w) : c ∈ cs := by
  induction cs generalizing w with
  | nil => simp_all
  | cons d cs ih =>
    rw [List.splitOnP_cons_eq_if_modifyHead] at hw
    obtain ⟨v, vs, hs⟩ := List.exists_cons_of_ne_nil (List.splitOnP_ne_nil p cs)
    rw [hs] at ih hw
    split at hw
    · rcases List.mem_cons.1 hw with rfl | hw
      · simp at hc
      · exact List.mem_cons_of_mem _ (ih hw hc)
    · rcases List.mem_cons.1 hw with rfl | hw
      · rcases List.mem_cons.1 hc with rfl | hc
        · exact List.mem_cons_self
        · exact List.mem_cons_of_mem _ (ih List.mem_cons_self hc)
      · exact List.mem_cons_of_mem _ (ih (List.mem_cons_of_mem _ hw) hc)

/-! ## Terminators -/

/-- Put a character in front of the first line. -/
def consHead (c : Char) : List (List Char) → List (List Char)
  | [] => [[c]]
  | w :: ws => (c :: w) :: ws

/-- The lines that the characters of the class end; text behind the last of them is a line too. -/
def linesBy (p : Char → Bool) : List Char → List (List Char)
  | [] => []
  | c :: cs => if p c then [] :: linesBy p cs else consHead c (linesBy p cs)

/-! ## Search -/

/-- Whether the text holds the needle as consecutive characters. -/
def occurs (needle : List Char) : List Char → Bool
  | [] => needle.isEmpty
  | c :: cs => needle.isPrefixOf (c :: cs) || occurs needle cs

/-- **`occurs` is the substring relation.** -/
theorem occurs_iff {needle cs : List Char} : occurs needle cs = true ↔ needle <:+: cs := by
  induction cs with
  | nil => simp [occurs]
  | cons c cs ih =>
    simp only [occurs, Bool.or_eq_true, ih, List.isPrefixOf_iff_prefix, List.infix_cons_iff]

/-- The text behind the first occurrence of the needle. -/
def after? (needle : List Char) : List Char → Option (List Char)
  | [] => if needle.isEmpty then some [] else none
  | c :: cs =>
    if needle.isPrefixOf (c :: cs) then some ((c :: cs).drop needle.length) else after? needle cs

/-- Cut at the last occurrence of a character. -/
def cutLast (c : Char) : List Char → Option (List Char × List Char)
  | [] => none
  | d :: cs =>
    match cutLast c cs with
    | some (l, r) => some (d :: l, r)
    | none => if d = c then some ([], cs) else none

theorem eq_append_of_cutLast {c : Char} {cs l r : List Char} (h : cutLast c cs = some (l, r)) :
    cs = l ++ c :: r := by
  induction cs generalizing l r with
  | nil => simp [cutLast] at h
  | cons d cs ih =>
    simp only [cutLast] at h
    split at h
    · rename_i l' r' hcut
      obtain ⟨rfl, rfl⟩ : d :: l' = l ∧ r' = r := by simpa using h
      rw [ih hcut, List.cons_append]
    · split at h
      · rename_i hd
        obtain ⟨rfl, rfl⟩ : [] = l ∧ cs = r := by simpa using h
        rw [hd, List.nil_append]
      · exact absurd h (by simp)

end MemberHarvest.Text
