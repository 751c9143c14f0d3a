import MemberHarvest.Proofs.Path.Joined
import MemberHarvest.Proofs.Path.Wildcard
import MemberHarvest.Proofs.Path.Written

/-!
# Proofs/Path/Components — patterns and texts between their slashes

A slash in a pattern stands for a slash, so the components of a pattern lie one behind another in
whatever text it matches, even though an asterisk may stand for slashes as well. A component without
wildcards is therefore a component of the text (`mem_components_of_admits`). This needs two
asterisks to be a component by themselves (`IsWhole`).
-/

namespace MemberHarvest

open Ignore (anyDirectories)

variable {ps cs as bs piece : List Char}

/-! ## Components -/

namespace Path

/-- The components of a text: the pieces between its slashes. -/
def components (cs : List Char) : List (List Char) := cs.splitOnP (· == '/')

/-- A text without a slash is a single piece. -/
theorem components_of_not_mem (h : '/' ∉ cs) : components cs = [cs] := by
  refine List.splitOnP_eq_singleton fun c hc => ?_
  rw [beq_eq_false_iff_ne]
  rintro rfl
  exact h hc

/-- **Cutting at a slash and putting the pieces of both sides together is cutting everywhere.** So
the components of a text are found by looking at one slash at a time. -/
theorem components_append_slash (as bs : List Char) :
    components (as ++ '/' :: bs) = components as ++ components bs :=
  List.splitOnP_append_cons as bs (by decide)

/-- A piece belongs to one side of the slash or to the other. -/
theorem mem_components_append_slash :
    piece ∈ components (as ++ '/' :: bs) ↔ piece ∈ components as ∨ piece ∈ components bs := by
  rw [components_append_slash, List.mem_append]

/-- A text is its only component, or its first component has a slash and further components behind
it. -/
@[elab_as_elim]
theorem inductComponents {motive : List Char → Prop} (last : ∀ as, '/' ∉ as → motive as)
    (cons : ∀ as bs, '/' ∉ as → motive bs → motive (as ++ '/' :: bs)) (cs : List Char) :
    motive cs := by
  induction hlength : cs.length using Nat.strongRecOn generalizing cs with
  | ind n ih =>
    subst hlength
    by_cases hslash : '/' ∈ cs
    · obtain ⟨as, bs, rfl, has⟩ := List.eq_append_cons_of_mem hslash
      exact cons as bs has (ih _ (by simp; omega) bs rfl)
    · exact last cs hslash

/-- The names of a text are its components but for the empty ones and `.`. -/
theorem ofList_mem_namesOf_iff : String.ofList piece ∈ namesOf cs ↔
    piece ∈ components cs ∧ piece ≠ [] ∧ piece ≠ ['.'] := by
  rw [namesOf, List.mem_map_of_injective fun _ _ => String.ofList_inj.1, List.mem_filter]
  simp [components]

/-- **Names joined by slashes are the components of their text.** An empty name counts here, which a
path would leave out. -/
theorem components_intercalate {ns : List String} (hns : ns ≠ []) (h : ∀ n ∈ ns, '/' ∉ n.toList) :
    components ("/".intercalate ns).toList = ns.map String.toList := by
  induction ns with
  | nil => exact absurd rfl hns
  | cons n ns ih =>
    obtain ⟨hn, hrest⟩ := List.forall_mem_cons.1 h
    cases ns with
    | nil => rw [String.intercalate_singleton, components_of_not_mem hn, List.map_singleton]
    | cons m ns =>
      rw [toList_intercalate_cons n (List.cons_ne_nil m ns), components_append_slash,
        components_of_not_mem hn, ih (List.cons_ne_nil m ns) hrest]
      rfl

/-- Whether no component of a text is empty, `.` or `..`. -/
def IsDirect (cs : List Char) : Prop :=
  ∀ piece ∈ components cs, piece ≠ [] ∧ piece ≠ ['.'] ∧ piece ≠ ['.', '.']

instance (cs : List Char) : Decidable (IsDirect cs) := List.decidableBAll _ _

/-- **A direct text is that of its names joined by slashes.** A dot or an empty component would be
lost. -/
theorem IsDirect.intercalate_namesOf (h : IsDirect cs) :
    ("/".intercalate (namesOf cs)).toList = cs := by
  have hname {as : List Char} (has : '/' ∉ as) (hkeep : as ≠ [] ∧ as ≠ ['.']) :
      namesOf as = [String.ofList as] := by
    have hsplit := components_of_not_mem has
    rw [components] at hsplit
    simp [namesOf, hsplit, hkeep]
  induction cs using inductComponents with
  | last as has =>
    obtain ⟨hempty, hdot, -⟩ := h as (by simp [components_of_not_mem has])
    rw [hname has ⟨hempty, hdot⟩, String.intercalate_singleton, String.toList_ofList]
  | cons as bs has ih =>
    rw [IsDirect, components_append_slash, components_of_not_mem has, List.forall_mem_append,
      List.forall_mem_singleton] at h
    obtain ⟨⟨hempty, hdot, -⟩, hrest⟩ := h
    have hbehind : namesOf bs ≠ [] := by
      obtain ⟨piece, pieces, hpieces⟩ :=
        List.exists_cons_of_ne_nil (List.splitOnP_ne_nil (· == '/') bs)
      have hpiece : piece ∈ components bs := by simp [components, hpieces]
      obtain ⟨hempty, hdot, -⟩ := hrest piece hpiece
      exact List.ne_nil_of_mem (ofList_mem_namesOf_iff.2 ⟨hpiece, hempty, hdot⟩)
    rw [namesOf_append_slash, hname has ⟨hempty, hdot⟩, List.singleton_append,
      toList_intercalate_cons _ hbehind, ih hrest, String.toList_ofList]

/-- **A path is read back from its text,** name by name. The anchor in front adds no name. -/
theorem namesOf_toString {p : Path} (h : p.IsPlain) : namesOf p.toString.toList = p.names := by
  obtain ⟨anchor, names⟩ := p
  by_cases hnames : names = []
  · subst hnames
    cases anchor <;> decide
  · have hslash : namesOf ('/' :: ("/".intercalate names).toList) = names := by
      rw [← List.nil_append ('/' :: _), namesOf_append_slash, namesOf_intercalate h]
      rfl
    have htwo : namesOf ('/' :: '/' :: ("/".intercalate names).toList) = names := by
      rw [← List.nil_append ('/' :: '/' :: _), namesOf_append_slash, hslash]
      rfl
    have hroot : Anchor.root.text.toList = ['/'] := by decide
    have hnetwork : Anchor.network.text.toList = ['/', '/'] := by decide
    rw [toString_of_names hnames, String.toList_append]
    cases anchor with
    | here => exact namesOf_intercalate h
    | root => rwa [hroot]
    | network => rwa [hnetwork]

/-- What lies below a place is shown by the names that lead there. -/
theorem relativeText_ofPlace_append (place : Place) {ns : List String} (hns : ns ≠ []) :
    (ofPlace place).relativeText (ofPlace (place ++ ns)) = "/".intercalate ns := by
  have hbelow : (ofPlace (place ++ ns)).below? (ofPlace place) = some ⟨.here, ns⟩ := by
    simp [below?, ofPlace]
  rw [relativeText, hbelow]
  simp [toString_of_names, hns, Anchor.text]

/-- No place is shown by a text with a name that does not lead to it. -/
theorem mem_of_mem_namesOf_relativeText {place q : Place} {n : String} (hq : (ofPlace q).IsPlain)
    (hn : n ∈ namesOf ((ofPlace place).relativeText (ofPlace q)).toList) : n ∈ q := by
  rw [relativeText] at hn
  split at hn
  · rename_i rest hrest
    rw [below?] at hrest
    split at hrest
    · obtain rfl := Option.some.inj hrest
      rw [namesOf_toString fun m hm => hq m (List.mem_of_mem_drop hm)] at hn
      exact List.mem_of_mem_drop hn
    · cases hrest
  · rwa [namesOf_toString hq] at hn

end Path

/-! ## What the components of a pattern stand for -/

namespace Wildcard

open MemberHarvest.Path
  (components inductComponents mem_components_append_slash components_of_not_mem)

/-- A text without wildcards stands for itself. -/
theorem admits_iff_of_forall (h : ∀ c ∈ ps, c ≠ '*' ∧ c ≠ '?') : admits ps cs = true ↔ ps = cs := by
  induction ps generalizing cs with
  | nil => rw [admits_nil, List.isEmpty_iff, eq_comm]
  | cons c ps ih =>
    obtain ⟨⟨hstar, hone⟩, hps⟩ := List.forall_mem_cons.1 h
    rw [admits_plain_iff hstar]
    constructor
    · rintro ⟨d, ds, rfl, hd, hrest⟩
      rw [hd.resolve_left hone, (ih hps).1 hrest]
    · rintro rfl
      exact ⟨c, ps, rfl, .inr rfl, (ih hps).2 rfl⟩

/-- Two patterns that each admit a text admit the texts joined by a slash. -/
theorem admits_append_slash (hfront : admits ps as = true) (h : admits piece bs = true) :
    admits (ps ++ '/' :: piece) (as ++ '/' :: bs) = true :=
  admits_append hfront ((admits_plain_iff (by decide)).2 ⟨'/', bs, rfl, .inr rfl, h⟩)

/-- **Behind a text without a double asterisk, a slash stands for a slash.** A single asterisk
stands for slashes as well, and that is why the text may be cut at another slash than the first
one. -/
theorem exists_of_admits_slash (hstars : ¬ ['*', '*'] <:+: piece)
    (h : admits (piece ++ '/' :: ps) cs = true) :
    ∃ as bs, cs = as ++ '/' :: bs ∧ admits piece as = true ∧ admits ps bs = true := by
  induction piece generalizing cs with
  | nil =>
    obtain ⟨d, bs, rfl, hd, h⟩ := (admits_plain_iff (by decide)).1 h
    obtain rfl := hd.resolve_left (by decide)
    exact ⟨[], bs, rfl, rfl, h⟩
  | cons c piece ih =>
    have hrest : ¬ ['*', '*'] <:+: piece :=
      fun hmore => hstars (hmore.trans (List.suffix_cons c piece).isInfix)
    by_cases hc : c = '*'
    · subst hc
      have hapart : ¬ ['*', '/'] <+: piece ++ '/' :: ps := by
        intro hbegins
        cases piece with
        | nil => exact absurd (List.cons_prefix_cons.1 hbegins).1 (by decide)
        | cons d piece =>
          obtain rfl : '*' = d := (List.cons_prefix_cons.1 hbegins).1
          exact hstars (List.prefix_append ['*', '*'] piece).isInfix
      obtain ⟨s, ⟨ds, rfl⟩, hbehind⟩ := (admits_star_iff hapart).1 h
      obtain ⟨as, bs, rfl, has, hbs⟩ := ih hrest hbehind
      exact ⟨ds ++ as, bs, by simp, admits_star (List.suffix_append ds as) has, hbs⟩
    · obtain ⟨d, ds, rfl, hd, hbehind⟩ := (admits_plain_iff hc).1 h
      obtain ⟨as, bs, rfl, has, hbs⟩ := ih hrest hbehind
      exact ⟨d :: as, bs, rfl, (admits_plain_iff hc).2 ⟨d, as, rfl, hd, has⟩, hbs⟩

/-- Whether two asterisks next to each other are always a component by themselves. -/
def IsWhole (ps : List Char) : Prop :=
  ∀ piece ∈ components ps, piece = ['*', '*'] ∨ ¬ ['*', '*'] <:+: piece

/-- A pattern is whole if its first piece is and the rest is. -/
theorem isWhole_append_slash (has : '/' ∉ as) :
    IsWhole (as ++ '/' :: bs) ↔ (as = ['*', '*'] ∨ ¬ ['*', '*'] <:+: as) ∧ IsWhole bs := by
  simp only [IsWhole, Path.components_append_slash, components_of_not_mem has,
    List.singleton_append, List.forall_mem_cons]

/-- **Where two asterisks are a component by themselves, they stand at the beginning or behind a
slash.** A glob refuses two asterisks in any other position, so its pattern is always aligned. -/
theorem IsWhole.isAligned (h : IsWhole ps) : IsAligned ps := by
  induction ps using inductComponents with
  | last as has =>
    rintro front back rfl
    exact absurd has (by simp [anyDirectories])
  | cons as bs has ih =>
    obtain ⟨hfirst, hrest⟩ := (isWhole_append_slash has).1 h
    intro front back heq
    rcases List.append_eq_append_iff.1 heq with ⟨between, rfl, hbehind⟩ | ⟨between, rfl, hbehind⟩
    · cases between with
      | nil => exact absurd (List.cons.inj hbehind).1 (by decide)
      | cons d between =>
        obtain ⟨rfl, rfl⟩ := List.cons.inj hbehind
        right
        rcases ih hrest between back rfl with rfl | hslash
        · simp
        · rw [List.getLast?_append, List.getLast?_cons, hslash]
          rfl
    · -- the slash is the one behind the two asterisks, which end the first component
      have hshort : between = ['*', '*'] := by
        rcases between with _ | ⟨c, _ | ⟨d, _ | ⟨e, between⟩⟩⟩
        · exact absurd (List.cons.inj hbehind).1 (by decide)
        · exact absurd (List.cons.inj (List.cons.inj hbehind).2).1 (by decide)
        · obtain ⟨rfl, rfl, -⟩ : '*' = c ∧ '*' = d ∧ back = bs := by
            simpa [anyDirectories] using hbehind
          rfl
        · obtain rfl : '/' = e := (List.cons.inj (List.cons.inj (List.cons.inj hbehind).2).2).1
          exact absurd has (by simp)
      subst hshort
      left
      rcases hfirst with hfirst | hstars
      · simpa using hfirst
      · exact absurd (List.suffix_append front ['*', '*']).isInfix hstars

/-- **A component without wildcards is a component of every text that the pattern stands for.** The
induction is on the components of the pattern, of which the first one is cut off with its slash. -/
theorem mem_components_of_admits (h : IsWhole ps) (hcs : admits ps cs = true)
    (hpiece : piece ∈ components ps) (hplain : ∀ c ∈ piece, c ≠ '*' ∧ c ≠ '?') :
    piece ∈ components cs := by
  induction ps using inductComponents generalizing cs with
  | last as has =>
    obtain rfl : piece = as := List.mem_singleton.1 (components_of_not_mem has ▸ hpiece)
    obtain rfl : piece = cs := (admits_iff_of_forall hplain).1 hcs
    exact hpiece
  | cons as bs has ih =>
    obtain ⟨hfirst, hrest⟩ := (isWhole_append_slash has).1 h
    rw [mem_components_append_slash, components_of_not_mem has, List.mem_singleton] at hpiece
    rcases hfirst with rfl | hstars
    · have hbehind : piece ∈ components bs := hpiece.resolve_left fun heq =>
        (hplain '*' (by simp [heq])).1 rfl
      rcases admits_anyDirectories_iff.1 hcs with hadmits | ⟨s, ⟨front, rfl⟩, hadmits⟩
      · exact ih hrest hadmits hbehind
      · exact mem_components_append_slash.2 (.inr (ih hrest hadmits hbehind))
    · obtain ⟨front, back, rfl, hfront, hback⟩ := exists_of_admits_slash hstars hcs
      rw [mem_components_append_slash]
      rcases hpiece with rfl | hbehind
      · obtain rfl : piece = front := (admits_iff_of_forall hplain).1 hfront
        exact .inl (by rw [components_of_not_mem has]; exact List.mem_singleton.2 rfl)
      · exact .inr (ih hrest hback hbehind)

end Wildcard
end MemberHarvest
