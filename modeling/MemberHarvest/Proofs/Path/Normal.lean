import MemberHarvest.Proofs.Path.Components

/-!
# Proofs/Path/Normal — paths that lead down from the root

A path is normal if it goes from the root by names that lead down only (`IsNormal`). Whatever a path
says, following it by its names comes to a normal one (`isNormal_resolve`): each `..` takes back a
name, and at the root there is none to take back (`follow_replicate_dotdot`). A path is read back
from its text (`ofString_toString`), and so a normal path is found again from the text by which it
is shown from another one (`join_ofString_relativeText`).
-/

namespace MemberHarvest.Path

variable {p q root target : Path} {here cwd : Place} {ns : List String} {n : String}

/-! ## Following names -/

theorem mem_of_mem_follow (h : n ∈ follow here ns) : n ∈ here ∨ n ∈ ns := by
  induction ns generalizing here with
  | nil => exact .inl h
  | cons m ns ih =>
    rcases ih h with hstep | hrest
    · rw [step] at hstep
      split at hstep
      · exact .inl (List.mem_of_mem_dropLast hstep)
      · exact (List.mem_append.1 hstep).imp_right fun hm =>
          List.mem_cons.2 (.inl (List.mem_singleton.1 hm))
    · exact .inr (List.mem_cons_of_mem m hrest)

/-- Names that lead down are followed as they stand. -/
theorem follow_of_not_mem (h : ".." ∉ ns) : follow here ns = here ++ ns := by
  induction ns generalizing here with
  | nil => exact (List.append_nil here).symm
  | cons n ns ih =>
    rw [List.mem_cons, not_or] at h
    have hstep : step here n = here ++ [n] := if_neg (Ne.symm h.1)
    change follow (step here n) ns = _
    rw [hstep, ih h.2, List.append_assoc, List.singleton_append]

/-- **Each `..` takes back one name, and none at the root.** The root is its own parent. -/
theorem follow_replicate_dotdot (here : Place) (k : Nat) :
    follow here (List.replicate k "..") = here.take (here.length - k) := by
  induction k generalizing here with
  | zero => exact (List.take_length).symm
  | succ k ih =>
    have hstep : step here ".." = here.dropLast := if_pos rfl
    change follow (step here "..") (List.replicate k "..") = _
    rw [hstep, ih, List.length_dropLast, List.dropLast_eq_take, List.take_take,
      min_eq_left (Nat.sub_le _ k), Nat.sub_sub, Nat.add_comm 1 k]

/-! ## Normal paths -/

/-- A path goes from the root by names that lead down: none is empty, `.` or `..`, and none holds a
slash or NUL. -/
structure IsNormal (p : Path) : Prop where
  anchor : p.anchor = .root
  plain : p.IsPlain
  descends : ".." ∉ p.names
  holdsNul : p.holdsNul = false

instance (p : Path) : Decidable p.IsPlain :=
  inferInstanceAs (Decidable (∀ n ∈ p.names, n ≠ "" ∧ n ≠ "." ∧ '/' ∉ n.toList))

instance (p : Path) : Decidable p.IsNormal :=
  decidable_of_iff (p.anchor = .root ∧ p.IsPlain ∧ ".." ∉ p.names ∧ p.holdsNul = false)
    ⟨fun ⟨hanchor, hplain, hdescends, hnul⟩ => ⟨hanchor, hplain, hdescends, hnul⟩,
      fun h => ⟨h.anchor, h.plain, h.descends, h.holdsNul⟩⟩

/-- **An absolute path comes to a normal one by its names.** What is resolved has neither dots nor
steps back nor NUL. -/
theorem isNormal_resolve (hplain : p.IsPlain) (habsolute : p.isAbsolute = true)
    (hnul : p.holdsNul = false) :
    (p.resolve cwd).IsNormal := by
  have hplace : (p.resolve cwd).names = follow [] p.names := by
    rw [resolve, ofPlace, placeOf, habsolute]
    rfl
  have hmem {n : String} (hn : n ∈ (p.resolve cwd).names) : n ∈ p.names := by
    rw [hplace] at hn
    exact (mem_of_mem_follow hn).resolve_left List.not_mem_nil
  refine ⟨rfl, fun n hn => hplain n (hmem hn), ?_, ?_⟩
  · rw [hplace]
    exact dotdot_not_mem_follow List.not_mem_nil p.names
  · rw [holdsNul, List.any_eq_false] at hnul ⊢
    exact fun n hn => hnul n (hmem hn)

theorem IsNormal.isAbsolute (h : p.IsNormal) : p.isAbsolute = true := by
  rw [Path.isAbsolute, h.anchor]
  rfl

/-- A normal path names the place that it spells, wherever one stands. -/
theorem IsNormal.placeOf_eq (h : p.IsNormal) (cwd : Place) : p.placeOf cwd = p.names := by
  rw [placeOf, h.isAbsolute, if_pos rfl, follow_of_not_mem h.descends, List.nil_append]

/-- **A normal path names its own place.** So resolving twice is resolving once. -/
theorem IsNormal.resolve_eq (h : p.IsNormal) (cwd : Place) : p.resolve cwd = p := by
  rw [resolve, h.placeOf_eq, ofPlace, ← h.anchor]

/-- What is above a normal path is normal again. -/
theorem IsNormal.parent (h : p.IsNormal) : p.parent.IsNormal where
  anchor := h.anchor
  plain n hn := h.plain n (List.mem_of_mem_dropLast hn)
  descends hmem := h.descends (List.mem_of_mem_dropLast hmem)
  holdsNul := holdsNul_parent h.holdsNul

/-! ## Paths and their texts -/

/-- **A path is read back from its text.** A path that is built from other names may not be: a slash
in a name would divide it. -/
theorem ofString_toString (h : p.IsPlain) : ofString p.toString = p := by
  obtain ⟨anchor, names⟩ := p
  have hanchor : anchorOf (Path.mk anchor names).toString.toList = anchor := by
    by_cases hnames : names = []
    · subst hnames
      cases anchor <;> decide
    · have hhead : ("/".intercalate names).toList.head? ≠ some '/' := head?_intercalate_ne h
      have hroot : Anchor.root.text.toList = ['/'] := by decide
      have hnetwork : Anchor.network.text.toList = ['/', '/'] := by decide
      rw [toString_of_names hnames, String.toList_append]
      cases anchor with
      | here => exact anchorOf_of_head? hhead
      | root =>
        rw [hroot]
        generalize ("/".intercalate names).toList = cs at hhead ⊢
        cases cs <;> simp_all [anchorOf]
      | network =>
        rw [hnetwork]
        generalize ("/".intercalate names).toList = cs at hhead ⊢
        cases cs <;> simp_all [anchorOf]
  rw [ofString, namesOf_toString h, hanchor]

/-- **Two plain paths that are written alike are the same one.** This follows from
`ofString_toString`, as the text determines the path that it is read as. -/
theorem toString_injOn (hp : p.IsPlain) (hq : q.IsPlain) (h : p.toString = q.toString) : p = q := by
  rw [← ofString_toString hp, h, ofString_toString hq]

/-- **What a normal path is shown as leads back to it,** whether it lies below the path that it is
shown from or not. A text that is absolute takes the place of the path in front of it. -/
theorem join_ofString_relativeText (root : Path) (h : target.IsNormal) :
    root.join (ofString (root.relativeText target)) = target := by
  rw [relativeText]
  split
  · rename_i rest hbelow
    rw [below?] at hbelow
    split at hbelow
    · rename_i hprefix
      obtain rfl := Option.some.inj hbelow
      have hplain : (Path.mk .here (target.names.drop root.names.length)).IsPlain :=
        fun n hn => h.plain n (List.mem_of_mem_drop hn)
      obtain ⟨ns, hns⟩ := hprefix.2
      rw [ofString_toString hplain, ← hns, List.drop_left]
      change Path.mk root.anchor (root.names ++ ns) = target
      rw [hns, ← hprefix.1]
    · cases hbelow
  · rw [ofString_toString h.plain, join, if_pos h.isAbsolute]

/-- **Different paths are shown by different texts.** This follows from
`join_ofString_relativeText`. -/
theorem relativeText_injOn (hp : p.IsNormal) (hq : q.IsNormal)
    (h : root.relativeText p = root.relativeText q) :
    p = q := by
  rw [← join_ofString_relativeText root hp, h, join_ofString_relativeText root hq]

end MemberHarvest.Path
