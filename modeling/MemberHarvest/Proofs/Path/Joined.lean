import Mathlib.Data.String.Basic
import MemberHarvest.Proofs.Path.Trail
import MemberHarvest.Proofs.Text.Words

/-!
# Proofs/Path/Joined — the path that joined names denote

A slash in a text divides the names in front of it from those behind it (`namesOf_append_slash`). So
plain names that are joined by slashes denote the path that goes through them
(`ofString_intercalate`), and a name that is joined to a text leads on from its path
(`ofString_append_slash`).
-/

namespace MemberHarvest

namespace Path

/-- **A slash divides the names in front of it from those behind it.** Empty components and single
dots on either side count for nothing. -/
theorem namesOf_append_slash (as bs : List Char) :
    namesOf (as ++ '/' :: bs) = namesOf as ++ namesOf bs := by
  rw [namesOf, List.splitOnP_append_cons _ _ (by decide), List.filter_append, List.map_append]
  rfl

/-- A plain name is the only one of its text. -/
theorem namesOf_name {n : String} (h : n ≠ "" ∧ n ≠ "." ∧ '/' ∉ n.toList) :
    namesOf n.toList = [n] := by
  obtain ⟨hempty, hdot, hslash⟩ := h
  have hsplit : n.toList.splitOnP (· == '/') = [n.toList] :=
    List.splitOnP_eq_singleton fun c hc => by
      rw [beq_eq_false_iff_ne]
      rintro rfl
      exact hslash hc
  have hne : n.toList ≠ [] := by simpa using hempty
  have hne' : n.toList ≠ ['.'] := fun h => hdot (String.toList_inj.1 h)
  simp [namesOf, hsplit, hne, hne']

/-- The text of two lists of names is that of the one, a slash and that of the other. -/
theorem toList_intercalate_append {ns ms : List String} (hns : ns ≠ []) (hms : ms ≠ []) :
    ("/".intercalate (ns ++ ms)).toList = ("/".intercalate ns).toList ++
      '/' :: ("/".intercalate ms).toList := by
  rw [String.intercalate_append_of_ne_nil hns hms, String.toList_append, String.toList_append,
    List.append_assoc]
  rfl

/-- So the text of a list begins with its first name and a slash. -/
theorem toList_intercalate_cons (n : String) {ns : List String} (hns : ns ≠ []) :
    ("/".intercalate (n :: ns)).toList = n.toList ++ '/' :: ("/".intercalate ns).toList := by
  rw [← List.singleton_append, toList_intercalate_append (List.cons_ne_nil n []) hns,
    String.intercalate_singleton]

/-- **Names that are written with slashes between them are read back,** if each is a plain name. A
name with a slash would come apart, and a dot or an empty name would be lost. -/
theorem namesOf_intercalate {ns : List String} (h : (Path.mk .here ns).IsPlain) :
    namesOf ("/".intercalate ns).toList = ns := by
  induction ns with
  | nil => rfl
  | cons n ns ih =>
    obtain ⟨hn, hns⟩ := List.forall_mem_cons.1 h
    cases ns with
    | nil => rw [String.intercalate_singleton, namesOf_name hn]
    | cons m ns =>
      rw [toList_intercalate_cons n (List.cons_ne_nil m ns), namesOf_append_slash,
        namesOf_name hn, ih hns, List.singleton_append]

/-- A text that does not begin with a slash starts at the current directory. -/
theorem anchorOf_of_head? {cs : List Char} (h : cs.head? ≠ some '/') : anchorOf cs = .here := by
  unfold anchorOf
  split <;> simp_all

/-- Plain names joined by slashes do not begin with one. -/
theorem head?_intercalate_ne {ns : List String} (h : (Path.mk .here ns).IsPlain) :
    ("/".intercalate ns).toList.head? ≠ some '/' := by
  cases ns with
  | nil => simp
  | cons n ns =>
    obtain ⟨⟨hempty, -, hslash⟩, -⟩ := List.forall_mem_cons.1 h
    obtain ⟨c, cs, hc⟩ := List.exists_cons_of_ne_nil (l := n.toList) (by simpa using hempty)
    have hfirst : ("/".intercalate (n :: ns)).toList.head? = some c := by
      cases ns <;> simp [String.intercalate_cons_cons, hc]
    rw [hfirst, Ne, Option.some_inj]
    rintro rfl
    exact hslash (by simp [hc])

/-- **Plain names joined by slashes denote the path through them.** The first name has no slash in
front, so the path is a relative one. -/
theorem ofString_intercalate {ns : List String} (h : (Path.mk .here ns).IsPlain) :
    ofString ("/".intercalate ns) = ⟨.here, ns⟩ := by
  rw [ofString, namesOf_intercalate h, anchorOf_of_head? (head?_intercalate_ne h)]

/-- **A slash and a name behind a text denote that name behind its path,** where the text starts at
the current directory. -/
theorem ofString_append_slash {as : List Char} (hne : as ≠ [])
    (hhead : as.head? ≠ some '/') {n : String} (hn : n ≠ "" ∧ n ≠ "." ∧ '/' ∉ n.toList) :
    ofString (String.ofList (as ++ '/' :: n.toList)) = (ofString (String.ofList as)).child n := by
  have hlong : (as ++ '/' :: n.toList).head? ≠ some '/' := by
    rwa [List.head?_append_of_ne_nil _ hne]
  rw [ofString, ofString, String.toList_ofList, String.toList_ofList, anchorOf_of_head? hlong,
    anchorOf_of_head? hhead, namesOf_append_slash, namesOf_name hn, child]

end Path
end MemberHarvest
