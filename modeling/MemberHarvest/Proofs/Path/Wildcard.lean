import Mathlib.Data.List.Infix
import MemberHarvest.Path.Wildcard
import MemberHarvest.Proofs.Path.Variants

/-!
# Proofs/Path/Wildcard — patterns with variants and wildcards read from left to right

Outside bracket expressions, a pattern goes through a text character by character
(`admits_ofChars`). To try it with all its variants comes to the same as to let each `**/` stand for
no directories as well (`isIgnored_singleton_iff`). A text that the wildcards stand for is matched
by the variant without the `**/` that stand for nothing there, whatever the pattern
(`exists_variant_of_admits`). The converse needs every `**/` to stand at the beginning or behind a
slash (`IsAligned`): then a deletion neither brings about another `**/` nor cuts one in two.
-/

namespace MemberHarvest

/-! ## Patterns without bracket expressions -/

namespace Pattern

variable {p q : Pattern} {ps cs : List Char}

/-- The atom of a character outside bracket expressions. -/
def atomOf (c : Char) : Atom :=
  if c = '*' then .any else if c = '?' then .one else .char c

/-- An atom other than `*` takes one character. -/
theorem admits_cons_iff {a : Atom} (ha : a ≠ .any) :
    admits (a :: p) cs = true ↔ ∃ d ds, cs = d :: ds ∧ a.admits d = true ∧ admits p ds = true := by
  cases a with
  | any => exact absurd rfl ha
  | _ => cases cs <;> simp [admits, and_assoc]

/-- The same atom can be put in front of patterns that admit the same texts. -/
theorem admits_cons_congr (a : Atom) (h : p.admits = q.admits) :
    admits (a :: p) = admits (a :: q) := by
  funext cs
  cases a <;> cases cs <;> simp [admits, h]

/-- Neighbouring stars stand for the same as one star. -/
theorem admits_consAtom (a : Atom) (p : Pattern) : admits (consAtom a p) = admits (a :: p) := by
  rw [consAtom]
  split
  · rename_i h
    obtain ⟨rfl, hp⟩ := h
    obtain ⟨q, rfl⟩ := List.head?_eq_some_iff.1 hp
    funext cs
    have htwo : admits (.any :: .any :: q) cs = true ↔
        ∃ s, s <:+ cs ∧ admits (.any :: q) s = true := admits_any_iff
    rw [Bool.eq_iff_iff, htwo]
    simp only [admits_any_iff]
    constructor
    · rintro ⟨s, hs, h⟩
      exact ⟨cs, List.suffix_rfl, s, hs, h⟩
    · rintro ⟨s, hs, t, ht, h⟩
      exact ⟨t, ht.trans hs, h⟩
  · rfl

/-- **Outside bracket expressions each character is an atom of its own.** There are no ranges or
negations to look at then. -/
theorem admits_ofChars (h : '[' ∉ ps) : (ofChars ps).admits = admits (ps.map atomOf) := by
  fun_induction ofChars ps with
  | case1 => rfl
  | case2 cs ih =>
    rw [admits_consAtom, List.map_cons,
      admits_cons_congr _ (ih fun hmem => h (List.mem_cons_of_mem _ hmem))]
    rfl
  | case3 cs ih =>
    rw [admits_consAtom, List.map_cons,
      admits_cons_congr _ (ih fun hmem => h (List.mem_cons_of_mem _ hmem))]
    rfl
  | case4 cs | case5 cs => exact absurd List.mem_cons_self h
  | case6 c cs hstar hone _ ih =>
    have hatom : atomOf c = .char c := by
      rw [atomOf, if_neg (fun hc => hstar hc), if_neg (fun hc => hone hc)]
    rw [admits_consAtom, List.map_cons,
      admits_cons_congr _ (ih fun hmem => h (List.mem_cons_of_mem _ hmem)), hatom]

/-- **A pattern without brackets fits what its characters admit, one by one.** -/
theorem fits_ofChars_iff (h : '[' ∉ ps) :
    (ofChars ps).fits cs = true ↔ admits (ps.map atomOf) cs = true := by
  rw [fits_eq_admits, admits_ofChars h]

end Pattern

namespace Wildcard

open Ignore (anyDirectories deletions IsVariant mem_deletions_iff mem_variants_iff)

variable {ps cs s front back as bs : List Char} {c : Char}

/-- A pattern begins with a `**/`, with a star on its own or with another character. -/
@[elab_as_elim]
theorem induct {motive : List Char → Prop} (nil : motive [])
    (anyDirectories : ∀ ps, motive ps → motive ('*' :: '*' :: '/' :: ps))
    (star : ∀ ps, ¬ ['*', '/'] <+: ps → motive ps → motive ('*' :: ps))
    (plain : ∀ c ps, c ≠ '*' → motive ps → motive (c :: ps)) (ps : List Char) : motive ps := by
  induction hlength : ps.length using Nat.strongRecOn generalizing ps with
  | ind n ih =>
    subst hlength
    cases ps with
    | nil => exact nil
    | cons c ps =>
      by_cases hc : c = '*'
      · subst hc
        by_cases hbegins : ['*', '/'] <+: ps
        · obtain ⟨ps, rfl⟩ := hbegins
          exact anyDirectories ps (ih _ (by simp; omega) ps rfl)
        · exact star ps hbegins (ih _ (by simp) ps rfl)
      · exact plain c ps hc (ih _ (by simp) ps rfl)

/-! ## What each wildcard stands for -/

/-- The empty pattern admits the empty text only. -/
@[simp] theorem admits_nil : admits [] cs = cs.isEmpty := by
  rw [admits]

/-- Two stars and a slash stand for nothing or for everything up to some slash. -/
theorem admits_anyDirectories_iff : admits ('*' :: '*' :: '/' :: ps) cs = true ↔
    admits ps cs = true ∨ ∃ s, '/' :: s <:+ cs ∧ admits ps s = true := by
  rw [admits, Bool.or_eq_true, List.any_eq_true]
  simp only [mem_behindSlashes]

/-- A star stands for any beginning of the text. -/
theorem admits_star_iff (h : ¬ ['*', '/'] <+: ps) :
    admits ('*' :: ps) cs = true ↔ ∃ s, s <:+ cs ∧ admits ps s = true := by
  rw [admits, List.any_eq_true]
  · simp only [Pattern.mem_suffixes]
  · rintro ps' rfl
    exact h ⟨ps', rfl⟩

/-- Any other character stands for itself, and `?` for an arbitrary one. -/
theorem admits_plain_iff (hc : c ≠ '*') :
    admits (c :: ps) cs = true ↔ ∃ d ds, cs = d :: ds ∧ (c = '?' ∨ c = d) ∧
      admits ps ds = true := by
  by_cases hone : c = '?'
  · subst hone
    cases cs <;> simp [admits, and_assoc]
  · cases cs <;> simp [admits, hc, hone, and_assoc]

/-- **A star stands for any text,** also where it is the first of a `**/`. -/
theorem admits_star (hs : s <:+ cs) (h : admits ps s = true) : admits ('*' :: ps) cs = true := by
  by_cases hbegins : ['*', '/'] <+: ps
  · obtain ⟨ps, rfl⟩ := hbegins
    obtain ⟨t, ht, h⟩ := (admits_star_iff (by simp)).1 h
    obtain ⟨d, ds, rfl, hd, h⟩ := (admits_plain_iff (by decide)).1 h
    obtain rfl : '/' = d := hd.resolve_left (by decide)
    exact admits_anyDirectories_iff.2 (.inr ⟨ds, ht.trans hs, h⟩)
  · exact (admits_star_iff hbegins).2 ⟨s, hs, h⟩

/-- **What two patterns stand for, they stand for together,** also where their ends make up a `**/`.
So a pattern may be taken apart anywhere. The converse needs the place where the text is cut. -/
theorem admits_append (hfront : admits front as = true) (hback : admits back bs = true) :
    admits (front ++ back) (as ++ bs) = true := by
  induction front using induct generalizing as with
  | nil =>
    rw [admits_nil, List.isEmpty_iff] at hfront
    rwa [hfront]
  | anyDirectories front ih =>
    rcases admits_anyDirectories_iff.1 hfront with h | ⟨s, hs, h⟩
    · exact admits_anyDirectories_iff.2 (.inl (ih h))
    · obtain ⟨ds, rfl⟩ := hs
      exact admits_anyDirectories_iff.2 (.inr ⟨s ++ bs, ⟨ds, by simp⟩, ih h⟩)
  | star front hbegins ih =>
    obtain ⟨s, ⟨ds, rfl⟩, h⟩ := (admits_star_iff hbegins).1 hfront
    exact admits_star ⟨ds, by simp⟩ (ih h)
  | plain c front hc ih =>
    obtain ⟨d, ds, rfl, hd, h⟩ := (admits_plain_iff hc).1 hfront
    exact (admits_plain_iff hc).2 ⟨d, ds ++ bs, rfl, hd, ih h⟩

/-- Behind a slash, a pattern goes on with a text of its own. -/
theorem exists_of_admits_append (hslash : front = [] ∨ front.getLast? = some '/')
    (h : admits (front ++ back) cs = true) :
    ∃ as bs, cs = as ++ bs ∧ admits front as = true ∧ admits back bs = true := by
  induction front using induct generalizing cs with
  | nil => exact ⟨[], cs, rfl, rfl, h⟩
  | anyDirectories front ih =>
    have hrest : front = [] ∨ front.getLast? = some '/' := by
      cases front with
      | nil => exact .inl rfl
      | cons c front => exact .inr (by simpa using hslash)
    rcases admits_anyDirectories_iff.1 h with hrests | ⟨s, ⟨ds, rfl⟩, hrests⟩
    · obtain ⟨as, bs, rfl, hfront, hback⟩ := ih hrest hrests
      exact ⟨as, bs, rfl, admits_anyDirectories_iff.2 (.inl hfront), hback⟩
    · obtain ⟨as, bs, rfl, hfront, hback⟩ := ih hrest hrests
      exact ⟨ds ++ '/' :: as, bs, by simp,
        admits_anyDirectories_iff.2 (.inr ⟨as, ⟨ds, rfl⟩, hfront⟩), hback⟩
  | star front hbegins ih =>
    -- the slash at the end keeps the star and what stands behind from being a `**/` together
    obtain ⟨c, front, rfl⟩ : ∃ c front', front = c :: front' := by
      cases front with
      | nil => exact absurd hslash (by decide)
      | cons c front => exact ⟨c, front, rfl⟩
    have hrest : (c :: front).getLast? = some '/' := by simpa using hslash
    have hapart : ¬ ['*', '/'] <+: c :: (front ++ back) := by
      intro hboth
      obtain ⟨rfl, hbehind⟩ := List.cons_prefix_cons.1 hboth
      cases front with
      | nil => exact absurd hrest (by decide)
      | cons d front =>
        obtain rfl : '/' = d := (List.cons_prefix_cons.1 hbehind).1
        exact hbegins ⟨front, rfl⟩
    obtain ⟨s, ⟨ds, rfl⟩, hrests⟩ := (admits_star_iff hapart).1 h
    obtain ⟨as, bs, rfl, hfront, hback⟩ := ih (.inr hrest) hrests
    exact ⟨ds ++ as, bs, by simp, admits_star (List.suffix_append ds as) hfront, hback⟩
  | plain c front hc ih =>
    have hrest : front = [] ∨ front.getLast? = some '/' := by
      cases front with
      | nil => exact .inl rfl
      | cons d front => exact .inr (by simpa using hslash)
    obtain ⟨d, ds, rfl, hd, hrests⟩ := (admits_plain_iff hc).1 h
    obtain ⟨as, bs, rfl, hfront, hback⟩ := ih hrest hrests
    exact ⟨d :: as, bs, rfl, (admits_plain_iff hc).2 ⟨d, as, rfl, hd, hfront⟩, hback⟩

/-! ## From wildcards to variants -/

/-- Two stars and a slash can be left out. -/
theorem isVariant_of_anyDirectories (h : IsVariant ps s) : IsVariant ('*' :: '*' :: '/' :: ps) s :=
  .head (mem_deletions_iff.2 ⟨[], ps, rfl, rfl⟩) h

/-- **What the wildcards stand for is matched by a variant:** the one without the `**/` that stand
for nothing. The induction follows the way in which the text is read, and each `**/` that is passed
over is a deletion. -/
theorem exists_variant_of_admits (h : admits ps cs = true) :
    ∃ v, IsVariant ps v ∧ Pattern.admits (v.map Pattern.atomOf) cs = true := by
  induction ps using induct generalizing cs with
  | nil => exact ⟨[], .refl, by simpa using h⟩
  | anyDirectories ps ih =>
    rcases admits_anyDirectories_iff.1 h with h | ⟨s, hs, h⟩
    · obtain ⟨v, hv, h⟩ := ih h
      exact ⟨v, isVariant_of_anyDirectories hv, h⟩
    · obtain ⟨v, hv, h⟩ := ih h
      refine ⟨'*' :: '*' :: '/' :: v, hv.append anyDirectories, ?_⟩
      refine Pattern.admits_any_iff.2
        ⟨cs, List.suffix_rfl, Pattern.admits_any_iff.2 ⟨'/' :: s, hs, ?_⟩⟩
      simpa [Pattern.admits, Pattern.atomOf, Pattern.Atom.admits] using h
  | star ps hbegins ih =>
    obtain ⟨s, hs, h⟩ := (admits_star_iff hbegins).1 h
    obtain ⟨v, hv, h⟩ := ih h
    exact ⟨'*' :: v, hv.append ['*'], Pattern.admits_any_iff.2 ⟨s, hs, h⟩⟩
  | plain c ps hc ih =>
    obtain ⟨d, ds, rfl, hd, hrests⟩ := (admits_plain_iff hc).1 h
    obtain ⟨v, hv, hmatch⟩ := ih hrests
    refine ⟨c :: v, hv.append [c], ?_⟩
    rw [List.map_cons, Pattern.atomOf, if_neg hc]
    split
    · simpa [Pattern.admits, Pattern.Atom.admits] using hmatch
    · rename_i hone
      obtain rfl := hd.resolve_left hone
      simpa [Pattern.admits, Pattern.Atom.admits] using hmatch

/-! ## From variants to wildcards -/

/-- What a pattern matches, its wildcards stand for. -/
theorem admits_of_admits_atoms (h : Pattern.admits (ps.map Pattern.atomOf) cs = true) :
    admits ps cs = true := by
  induction ps generalizing cs with
  | nil => simpa using h
  | cons c ps ih =>
    rw [List.map_cons, Pattern.atomOf] at h
    split at h
    · rename_i hc
      obtain ⟨s, hs, h⟩ := Pattern.admits_any_iff.1 h
      exact hc ▸ admits_star hs (ih h)
    rename_i hc
    split at h
    · rename_i hone
      obtain ⟨d, ds, rfl, -, hbehind⟩ := (Pattern.admits_cons_iff (by simp)).1 h
      exact (admits_plain_iff hc).2 ⟨d, ds, rfl, .inl hone, ih hbehind⟩
    · obtain ⟨d, ds, rfl, hd, hbehind⟩ := (Pattern.admits_cons_iff (by simp)).1 h
      obtain rfl : d = c := beq_iff_eq.1 hd
      exact (admits_plain_iff hc).2 ⟨d, ds, rfl, .inr rfl, ih hbehind⟩

/-- Whether each `**/` stands at the beginning or behind a slash. -/
def IsAligned (ps : List Char) : Prop :=
  ∀ front back, ps = front ++ (anyDirectories ++ back) → front = [] ∨ front.getLast? = some '/'

instance (ps : List Char) : Decidable (IsAligned ps) :=
  decidable_of_iff (∀ front ∈ ps.inits, front ++ anyDirectories <+: ps → front = [] ∨
    front.getLast? = some '/') <| by
    constructor
    · rintro h front back rfl
      exact h front (by simp) ⟨back, by simp⟩
    · rintro h front - ⟨back, hback⟩
      exact h front back (by rw [← hback, List.append_assoc])

/-- **A deletion brings about no `**/` elsewhere.** A slash or the beginning stays in front of what
comes behind the deleted characters. -/
theorem IsAligned.of_mem_deletions {d : List Char} (h : IsAligned ps) (hd : d ∈ deletions ps) :
    IsAligned d := by
  obtain ⟨front, back, rfl, rfl⟩ := mem_deletions_iff.1 hd
  intro front' back' heq
  rcases List.append_eq_append_iff.1 heq with ⟨as, rfl, rfl⟩ | ⟨as, rfl, hback⟩
  · -- the other `**/` stands behind the deleted one
    have hslash := h (front ++ (anyDirectories ++ as)) back' (by simp)
    cases as with
    | nil => simpa using h front _ rfl
    | cons c as =>
      right
      simpa [anyDirectories] using hslash
  · -- it begins in front of the deleted one, which stands behind a slash or at the beginning
    have hslash := h (front' ++ as) back rfl
    rcases as with _ | ⟨c, _ | ⟨d, _ | ⟨e, as⟩⟩⟩
    · simpa using hslash
    · obtain rfl : '*' = c := by simpa [anyDirectories] using (List.cons.inj hback).1
      exact absurd hslash (by simp)
    · obtain rfl : '*' = d := (List.cons.inj (List.cons.inj hback).2).1
      exact absurd hslash (by simp)
    · obtain ⟨rfl, rfl, rfl, -⟩ : '*' = c ∧ '*' = d ∧ '/' = e ∧ back' = as ++ back := by
        simpa [anyDirectories] using hback
      exact h front' (as ++ (anyDirectories ++ back)) (by simp [anyDirectories])

/-- **A pattern admits what is admitted once one `**/` is left out of it.** This is where
`IsAligned` is needed. -/
theorem admits_of_mem_deletions {d : List Char} (h : IsAligned ps) (hd : d ∈ deletions ps)
    (hcs : admits d cs = true) :
    admits ps cs = true := by
  obtain ⟨front, back, rfl, rfl⟩ := mem_deletions_iff.1 hd
  obtain ⟨as, bs, rfl, hfront, hback⟩ := exists_of_admits_append (h front back rfl) hcs
  exact admits_append hfront (admits_anyDirectories_iff.2 (.inl hback))

/-- **What a variant matches, the wildcards stand for.** The induction is on the deletions, each of
which is undone by `admits_of_mem_deletions`. -/
theorem admits_of_isVariant {v : List Char} (hv : IsVariant ps v) (h : IsAligned ps)
    (hcs : Pattern.admits (v.map Pattern.atomOf) cs = true) : admits ps cs = true := by
  induction hv using Relation.ReflTransGen.head_induction_on with
  | refl => exact admits_of_admits_atoms hcs
  | head hd _ ih => exact admits_of_mem_deletions h hd (ih (h.of_mem_deletions hd))

end Wildcard

/-! ## Ignored paths -/

namespace Ignore

variable {ps cs v : List Char}

/-- The characters of a variant are those of its pattern. -/
theorem mem_of_isVariant (h : IsVariant ps v) {c : Char} (hc : c ∈ v) : c ∈ ps := by
  induction h using Relation.ReflTransGen.head_induction_on with
  | refl => exact hc
  | head hd _ ih =>
    obtain ⟨front, back, rfl, rfl⟩ := mem_deletions_iff.1 hd
    rcases List.mem_append.1 ih with hfront | hback
    · exact List.mem_append_left _ hfront
    · exact List.mem_append_right _ (List.mem_append_right _ hback)

/-- Outside bracket expressions, a pattern matches with one of its variants, character by
character. -/
theorem matchesSome_iff (h : '[' ∉ ps) :
    matchesSome ps cs = true ↔ ∃ v, IsVariant ps v ∧
      Pattern.admits (v.map Pattern.atomOf) cs = true := by
  simp only [matchesSome, List.any_eq_true, mem_variants_iff]
  refine exists_congr fun v => and_congr_right fun hv => ?_
  exact Pattern.fits_ofChars_iff fun hmem => h (mem_of_isVariant hv hmem)

/-- Turning backslashes brings in no character but the slash. -/
theorem not_mem_slashes {c : Char} (hc : c ≠ '/') (h : c ∉ cs) : c ∉ Path.slashes cs := by
  rw [Path.slashes, List.mem_map]
  rintro ⟨d, hd, heq⟩
  split at heq
  · exact hc heq.symm
  · exact h (heq ▸ hd)

/-- **To try a pattern with all its variants is to read its wildcards from left to right,** a double
asterisk with a slash standing for any directories, none included. -/
theorem isIgnored_singleton_iff {pattern path : String} (hbracket : '[' ∉ pattern.toList)
    (haligned : Wildcard.IsAligned (Path.slashes pattern.toList)) :
    isIgnored [pattern] path = true ↔
      pattern ≠ "" ∧ Wildcard.admits (Path.slashes pattern.toList) path.toList = true := by
  have hmatches : matchesSome (Path.slashes pattern.toList) path.toList = true ↔
      Wildcard.admits (Path.slashes pattern.toList) path.toList = true := by
    rw [matchesSome_iff (not_mem_slashes (by decide) hbracket)]
    constructor
    · rintro ⟨v, hv, h⟩
      exact Wildcard.admits_of_isVariant hv haligned h
    · exact Wildcard.exists_variant_of_admits
  rw [isIgnored, List.any_cons, List.any_nil, Bool.or_false, Bool.and_eq_true, hmatches,
    Bool.not_eq_true', ← Bool.not_eq_true, String.isEmpty_iff]

/-- A pattern with backslashes and two stars twice. The second `**/` stands for nothing. -/
theorem isIgnored_singleton_iff_twoStars :
    '[' ∉ "Sub\\**/**\\?.c*".toList ∧ Wildcard.IsAligned (Path.slashes "Sub\\**/**\\?.c*".toList) ∧
      isIgnored ["Sub\\**/**\\?.c*"] "Sub/x/A.cs" = true ∧
        isIgnored ["Sub\\**/**\\?.c*"] "Sub/AB.cs" = false := by
  have hbracket : '[' ∉ "Sub\\**/**\\?.c*".toList := by decide
  have haligned : Wildcard.IsAligned (Path.slashes "Sub\\**/**\\?.c*".toList) := by decide
  have hiff (path : String) : isIgnored ["Sub\\**/**\\?.c*"] path = true ↔ _ :=
    isIgnored_singleton_iff hbracket haligned
  refine ⟨hbracket, haligned, (hiff _).2 ⟨by decide, by decide +kernel⟩, ?_⟩
  rw [← Bool.not_eq_true, hiff, not_and]
  exact fun _ => by decide +kernel

end Ignore
end MemberHarvest
