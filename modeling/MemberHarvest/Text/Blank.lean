import MemberHarvest.Text.Split

/-!
# Text/Blank — white space, and cutting text at it

A character is blank when it separates words: the Unicode white space characters and the four
information separators below the space. `words` gives the maximal runs of characters that are not
blank, `trim` drops the blank characters on both sides.
-/

namespace MemberHarvest.Text

/-- White space of the Unicode standard, with the four information separators `U+001C` to
`U+001F`. -/
def isBlank (c : Char) : Bool :=
  let n := c.toNat
  (9 ≤ n && n ≤ 13) || (28 ≤ n && n ≤ 32) || n == 0x85 || n == 0xA0 || n == 0x1680 ||
    (0x2000 ≤ n && n ≤ 0x200A) || n == 0x2028 || n == 0x2029 || n == 0x202F || n == 0x205F ||
    n == 0x3000

/-! ## Trimming -/

/-- The text without the blank characters at its start. -/
def trimStart (cs : List Char) : List Char := cs.dropWhile isBlank

/-- The text without the blank characters at its end. -/
def trimEnd (cs : List Char) : List Char := (cs.reverse.dropWhile isBlank).reverse

/-- The text without the blank characters on both sides. -/
def trim (cs : List Char) : List Char := trimEnd (trimStart cs)

/-! ## Words -/

/-- The maximal runs of characters that are not blank, in order. -/
def words (cs : List Char) : List (List Char) := (cs.splitOnP isBlank).filter (fun w => !w.isEmpty)

@[simp] theorem words_nil : words [] = [] := rfl

/-- **A word is not empty and holds no blank character.** -/
theorem forall_mem_words (cs : List Char) :
    ∀ w ∈ words cs, w ≠ [] ∧ ∀ c ∈ w, isBlank c = false := by
  intro w hw
  obtain ⟨hm, hne⟩ := List.mem_filter.1 hw
  exact ⟨by simpa using hne, forall_mem_splitOnP isBlank cs w hm⟩

/-- The first word, or nothing where every character is blank. -/
def firstWord (cs : List Char) : List Char := (words cs).head?.getD []

/-- The last word, or nothing where every character is blank. -/
def lastWord (cs : List Char) : List Char := (words cs).getLast?.getD []

/-- The text with every blank character left out. -/
def squeeze (cs : List Char) : List Char := cs.filter (fun c => !isBlank c)

/-- The trimmed pieces between the separators, the blank ones left out. -/
def trimmedPieces (sep : Char) (cs : List Char) : List (List Char) :=
  ((cs.splitOnP (· == sep)).map trim).filter (fun w => !w.isEmpty)

end MemberHarvest.Text
