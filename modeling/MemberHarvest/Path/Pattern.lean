import MemberHarvest.Text.Split

/-!
# Path/Pattern — wildcards

A pattern is a list of atoms: `*` stands for any text, `?` for any character, a bracket expression
for one character inside or outside some ranges, and every other character for itself. A pattern
matches a whole text. An opening bracket that nothing closes stands for itself. A range whose ends
are in the wrong order is dropped together with its ends, so that a bracket expression may come to
admit no character at all.
-/

namespace MemberHarvest

/-- What one position of a pattern admits. -/
inductive Pattern.Atom where
  | any
  | one
  | char (c : Char)
  | ranges (negated : Bool) (rs : List (Char × Char))
  deriving DecidableEq, Repr

/-- A pattern for a whole text. -/
abbrev Pattern := List Pattern.Atom

namespace Pattern

/-- Whether an atom admits the character. -/
def Atom.admits : Atom → Char → Bool
  | .any, _ => true
  | .one, _ => true
  | .char d, c => c == d
  | .ranges negated rs, c => negated != rs.any (fun r => r.1 ≤ c && c ≤ r.2)

/-- The text and everything behind its first, second, … character. -/
def suffixes : List Char → List (List Char)
  | [] => [[]]
  | c :: cs => (c :: cs) :: suffixes cs

theorem mem_suffixes {s cs : List Char} : s ∈ suffixes cs ↔ s <:+ cs := by
  induction cs with
  | nil => simp [suffixes]
  | cons c cs ih => simp only [suffixes, List.mem_cons, ih, List.suffix_cons_iff]

/-- Whether the pattern matches the whole text. -/
def admits : Pattern → List Char → Bool
  | [], cs => cs.isEmpty
  | .any :: ps, cs => (suffixes cs).any (admits ps)
  | _ :: _, [] => false
  | a :: ps, c :: cs => a.admits c && admits ps cs

@[simp] theorem admits_nil (cs : List Char) : admits [] cs = cs.isEmpty := by
  cases cs <;> rfl

theorem admits_any_iff {ps : Pattern} {cs : List Char} :
    admits (.any :: ps) cs = true ↔ ∃ s, s <:+ cs ∧ admits ps s = true := by
  simp [admits, List.any_eq_true, mem_suffixes]

/-! ## All rests at once

Trying every split at every star takes a time that is exponential in the number of stars. `fits`
follows instead all the rests that the atoms so far can leave; they are suffixes of one another, so
a text of `n` characters never leaves more than `n + 1` of them. -/

/-- What is left of the rests behind one more atom. -/
def advance (rests : List (List Char)) : Atom → List (List Char)
  | .any => suffixes? rests
  | a => rests.filterMap (tail? a)
where
  /-- Every suffix of the longest rest. -/
  suffixes? : List (List Char) → List (List Char)
    | [] => []
    | cs :: _ => suffixes cs
  /-- The text behind a first character that the atom admits. -/
  tail? (a : Atom) : List Char → Option (List Char)
    | [] => none
    | c :: cs => if a.admits c then some cs else none

/-- Whether the pattern matches the whole text, in time proportional to both lengths. -/
def fits (p : Pattern) (cs : List Char) : Bool := (p.foldl advance [cs]).any List.isEmpty

/-- Each rest is a suffix of the rests before it. -/
def Nested (rests : List (List Char)) : Prop := rests.Pairwise fun r s => s <:+ r

theorem nested_suffixes (cs : List Char) : Nested (suffixes cs) := by
  induction cs with
  | nil => simp [Nested, suffixes]
  | cons c cs ih =>
    refine List.pairwise_cons.2 ⟨fun s hs => ?_, ih⟩
    exact (mem_suffixes.1 hs).trans (List.suffix_cons c cs)

theorem nested_filterMap_tail? (a : Atom) {rests : List (List Char)} (h : Nested rests) :
    Nested (rests.filterMap (advance.tail? a)) := by
  refine List.Pairwise.filterMap _ (fun r s hrs r' hr s' hs => ?_) h
  cases r with
  | nil => simp [advance.tail?] at hr
  | cons x r =>
    cases s with
    | nil => simp [advance.tail?] at hs
    | cons y s =>
      simp only [advance.tail?, Option.ite_none_right_eq_some, Option.some.injEq] at hr hs
      obtain ⟨⟨-, rfl⟩, -, rfl⟩ := And.intro hr hs
      rcases List.suffix_cons_iff.1 hrs with h | h
      · obtain ⟨-, rfl⟩ := List.cons.inj h
        exact List.suffix_refl _
      · exact (List.suffix_cons y s).trans h

theorem nested_advance (a : Atom) {rests : List (List Char)} (h : Nested rests) :
    Nested (advance rests a) := by
  cases a with
  | any => cases rests with
    | nil => simp [advance, advance.suffixes?, Nested]
    | cons cs _ => exact nested_suffixes cs
  | _ => exact nested_filterMap_tail? _ h

theorem any_admits_filterMap {a : Atom} (ha : a ≠ .any) (ps : Pattern) (rests : List (List Char)) :
    (rests.filterMap (advance.tail? a)).any (admits ps) = rests.any (admits (a :: ps)) := by
  induction rests with
  | nil => rfl
  | cons r rest ih =>
    rw [List.any_cons, ← ih]
    cases r with
    | nil => cases a <;> simp_all [advance.tail?, admits]
    | cons c cs =>
      have hc : admits (a :: ps) (c :: cs) = (a.admits c && admits ps cs) := by
        cases a <;> simp_all [admits]
      by_cases h : a.admits c = true <;> simp [advance.tail?, hc, h]

theorem any_isEmpty_foldl_advance (p : Pattern) {rests : List (List Char)} (h : Nested rests) :
    (p.foldl advance rests).any List.isEmpty = rests.any (admits p) := by
  induction p generalizing rests with
  | nil => simp only [List.foldl_nil, funext admits_nil]
  | cons a ps ih =>
    rw [List.foldl_cons, ih (nested_advance a h)]
    by_cases ha : a = .any
    · subst ha
      cases rests with
      | nil => rfl
      | cons cs rest =>
        rw [Bool.eq_iff_iff]
        simp only [advance, advance.suffixes?, List.any_eq_true, mem_suffixes, admits_any_iff]
        constructor
        · rintro ⟨s, hs, ht⟩
          exact ⟨cs, List.mem_cons_self, s, hs, ht⟩
        · rintro ⟨r, hr, s, hs, ht⟩
          rcases List.mem_cons.1 hr with rfl | hr
          · exact ⟨s, hs, ht⟩
          · exact ⟨s, hs.trans ((List.pairwise_cons.1 h).1 r hr), ht⟩
    · rw [← any_admits_filterMap ha]
      cases a with
      | any => exact absurd rfl ha
      | _ => rfl

/-- **Following all rests at once decides the same matches.** -/
theorem fits_eq_admits (p : Pattern) (cs : List Char) : p.fits cs = p.admits cs := by
  rw [fits, any_isEmpty_foldl_advance p (by simp [Nested])]
  simp

/-! ## Bracket expressions -/

/-- How many characters behind an opening bracket cannot close it: the sign of negation, and a
bracket in first place or behind that sign. -/
def leadLength : List Char → Nat
  | '!' :: ']' :: _ => 2
  | '!' :: _ => 1
  | ']' :: _ => 1
  | _ => 0

/-- The inside of a bracket expression and the text behind it. -/
def bracket? (cs : List Char) : Option (List Char × List Char) :=
  let n := leadLength cs
  match (cs.drop n).dropWhile (· != ']') with
  | [] => none
  | _ :: behind => some (cs.take n ++ (cs.drop n).takeWhile (· != ']'), behind)

theorem length_of_bracket? {cs inside behind : List Char}
    (h : bracket? cs = some (inside, behind)) :
    behind.length < cs.length := by
  simp only [bracket?] at h
  split at h
  · exact absurd h (by simp)
  · rename_i c rest hd
    obtain ⟨_, rfl⟩ := Prod.mk.inj (Option.some.inj h)
    have := (List.dropWhile_suffix (l := cs.drop (leadLength cs)) (· != ']')).length_le
    rw [hd, List.length_cons, List.length_drop] at this
    omega

/-- Cut the inside of a bracket expression at the hyphens that join two ends of a range: a hyphen
does so from the second character on, and not within two characters behind another one. `skip`
counts the characters that cannot be such a hyphen. -/
def chunks (skip : Nat) : List Char → List (List Char)
  | [] => [[]]
  | c :: cs =>
    if skip = 0 ∧ c = '-' then [] :: chunks 2 cs
    else Text.consHead c (chunks (skip - 1) cs)

/-- A hyphen in last place stands for itself. -/
def settleLast (cks : List (List Char)) : List (List Char) :=
  match cks.reverse with
  | [] :: last :: before => ((last ++ ['-']) :: before).reverse
  | _ => cks

/-- Join two chunks whose ends are in the wrong order, without these ends. -/
def dropReversed : List (List Char) → List (List Char)
  | [] => []
  | c :: rest =>
    match dropReversed rest with
    | [] => [c]
    | d :: ds =>
      match c.getLast?, d.head? with
      | some hi, some lo => if lo < hi then (c.dropLast ++ d.tail) :: ds else c :: d :: ds
      | _, _ => c :: d :: ds

/-- The ranges between the chunks, and every other character as a range of its own. -/
def rangesOf : List (List Char) → List (Char × Char)
  | [] => []
  | [c] => c.map (fun x => (x, x))
  | c :: d :: rest =>
    (c.dropLast.map fun x => (x, x)) ++
      (match c.getLast?, d.head? with
        | some lo, some hi => [(lo, hi)]
        | _, _ => []) ++ rangesOf (d.tail :: rest)
termination_by cks => cks.length

/-- The atom of a bracket expression. -/
def bracketAtom (inside : List Char) : Atom :=
  let skip := if inside.head? = some '!' then 2 else 1
  match dropReversed (settleLast (chunks skip inside)) with
  | ('!' :: c) :: rest => .ranges true (rangesOf (c :: rest))
  | cks => .ranges false (rangesOf cks)

/-! ## Reading a pattern -/

/-- Put an atom in front; neighbouring stars are one star. -/
def consAtom (a : Atom) (ps : Pattern) : Pattern :=
  if a = .any ∧ ps.head? = some .any then ps else a :: ps

/-- The pattern that a text denotes. -/
def ofChars : List Char → Pattern
  | [] => []
  | '*' :: cs => consAtom .any (ofChars cs)
  | '?' :: cs => consAtom .one (ofChars cs)
  | '[' :: cs =>
    match _h : bracket? cs with
    | some (inside, behind) => consAtom (bracketAtom inside) (ofChars behind)
    | none => consAtom (.char '[') (ofChars cs)
  | c :: cs => consAtom (.char c) (ofChars cs)
termination_by cs => cs.length
decreasing_by
  all_goals simp_wf
  have := length_of_bracket? _h
  omega

/-- The pattern that a text denotes. -/
def ofString (s : String) : Pattern := ofChars s.toList

end Pattern
end MemberHarvest
