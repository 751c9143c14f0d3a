import MemberHarvest.Proofs.Workspace.Revisiting

/-!
# Proofs/Workspace/Roundabout — a search by a roundabout item

An item of a few characters can send a search into a directory and out of it again many times over,
so that it comes to the files beside that directory by long paths. Such a search comes to an end
just where none of these is too long to be looked at (`exists_follow_roundabout_iff`).
-/

namespace MemberHarvest

open Outcome
open MemberHarvest.Path (Place)

/-! ## Long names -/

variable {c : Char} {k : Nat}

/-- A name of one character, many times over. -/
def repeated (c : Char) (k : Nat) : String := String.ofList (List.replicate k c)

theorem toList_repeated : (repeated c k).toList = List.replicate k c := String.toList_ofList

theorem size_repeated (hc : c.utf8Size = 1) : Text.Utf8.size (repeated c k).toList = k := by
  rw [toList_repeated]
  induction k with
  | zero => rfl
  | succ k ih => rw [List.replicate_succ, Text.Utf8.size, hc, ih, Nat.add_comm]

theorem repeated_ne {s : String} (hs : ∃ b ∈ s.toList, b ≠ c) : repeated c k ≠ s := by
  rintro rfl
  obtain ⟨b, hb, hne⟩ := hs
  rw [toList_repeated] at hb
  exact hne (List.eq_of_mem_replicate hb)

/-- A repeated character is a name, if it is not too long and the character may stand in one. -/
theorem isName_repeated (hsize : c.utf8Size = 1) (hc : c ∉ ['.', '/', '\x00']) (hk : 0 < k)
    (hmax : k ≤ FileTree.maxName) : FileTree.isName (repeated c k) = true := by
  have hmem {b : Char} (hb : b ∈ (repeated c k).toList) : b = c := by
    rw [toList_repeated] at hb
    exact List.eq_of_mem_replicate hb
  have hdot : c ≠ '.' := by
    rintro rfl
    simp at hc
  rw [FileTree.isName_iff]
  refine ⟨?_, repeated_ne ⟨'.', by decide, hdot.symm⟩, repeated_ne ⟨'.', by decide, hdot.symm⟩,
    ?_, ?_, ?_⟩
  · intro h
    have hlength := congrArg (fun s : String => s.toList.length) h
    simp [toList_repeated] at hlength
    omega
  · intro h
    simp [← hmem h] at hc
  · intro h
    simp [← hmem h] at hc
  · rwa [FileTree.isTooLong_eq_false_iff, size_repeated hsize]

/-! ## The item -/

/-- An item that goes into every directory and out of it again, some times over, before it looks at
what is there. -/
def Glob.roundaboutText : Nat → List Char
  | 0 => ['*']
  | k + 1 => '*' :: '/' :: '.' :: '.' :: '/' :: roundaboutText k

/-- The item with this text. -/
def Glob.roundaboutItem (k : Nat) : String := String.ofList (roundaboutText k)

/-- The steps of such an item. -/
def Glob.roundaboutSteps : Nat → List Glob.Step
  | 0 => [.wild [.any]]
  | k + 1 => .wild [.any] :: .plain ".." :: roundaboutSteps k

namespace Glob

theorem ofName_star : Step.ofName "*" = .ok (.wild [.any]) := by
  rw [← Pattern.ofString_star]
  rfl

/-- The roundabout pattern is read as its steps. -/
theorem mapM_roundaboutText (k : Nat) :
    (Path.namesOf (roundaboutText k)).mapM Step.ofName = .ok (roundaboutSteps k) := by
  have hup : Step.ofName ".." = .ok (.plain "..") := by decide
  induction k with
  | zero =>
    change ["*"].mapM Step.ofName = _
    rw [List.mapM_cons, ofName_star]
    rfl
  | succ k ih =>
    have hnames : Path.namesOf (roundaboutText (k + 1)) =
        "*" :: ".." :: Path.namesOf (roundaboutText k) := by
      simp [roundaboutText, Path.namesOf, List.splitOnP_cons_eq_if_modifyHead]
    rw [hnames, List.mapM_cons, List.mapM_cons, ih, ofName_star, hup]
    rfl

theorem getLast?_roundaboutText (k : Nat) : (roundaboutText k).getLast? = some '*' := by
  induction k with
  | zero => rfl
  | succ k ih => simp [roundaboutText, List.getLast?_cons, ih]

/-- **The item denotes its steps.** Each round is a wildcard and a step back. -/
theorem ofString_roundaboutItem (k : Nat) :
    ofString (roundaboutItem k) = .ok ⟨roundaboutSteps k, false⟩ := by
  have hne : roundaboutText k ≠ [] := fun h => nomatch h ▸ getLast?_roundaboutText k
  have hanchor : Path.anchorOf (roundaboutText k) = .here := by cases k <;> rfl
  refine ofString_ofList_eq_ok_iff.2 ⟨hne, hanchor, mapM_eq_ok_iff.1 (mapM_roundaboutText k), ?_⟩
  rw [getLast?_roundaboutText]
  rfl

theorem star_mem_roundaboutText (k : Nat) :
    '*' ∈ roundaboutText k := by cases k <;> simp [roundaboutText]

theorem slashes_roundaboutText (k : Nat) : Path.slashes (roundaboutText k) = roundaboutText k := by
  induction k with
  | zero => rfl
  | succ k ih =>
    rw [Path.slashes] at ih ⊢
    simp only [roundaboutText, List.map_cons, ih]
    rfl

end Glob

namespace Workspace

variable {w : Workspace} {base : Path} {place : Place} {n : String}

/-- A path that goes into a directory and out of it again, some times over. -/
def rounds (n : String) : Nat → Path → Path
  | 0, p => p
  | k + 1, p => rounds n k ((p.child n).child "..")

/-- A path that is too long stays so. -/
theorem isLong_rounds {p : Path} (h : p.IsLong) (n : String) (k : Nat) : (rounds n k p).IsLong := by
  induction k generalizing p with
  | zero => exact h
  | succ k ih => exact ih (isLong_of_child (isLong_of_child h))

/-! ## Looking at a directory -/

theorem StartsAt.enter_eq_ok (h : StartsAt w base place) (hshort : ¬ base.IsLong) (e : Failure) :
    w.enter base ≠ .error e := by
  intro he
  rw [← h.spelled_self] at he
  exact hshort (h.spelled_self ▸ ((h.enter_eq_error_iff List.prefix_rfl
    (FileTree.isSome_of_isDirectory h.isDirectory)).1 he).1)

/-! ## The search -/

theorem fits_any (m : String) : Pattern.fits [.any] m.toList = true :=
  Pattern.fits_any_iff.2 List.nil_suffix

/-- A search for all names looks at everything in a directory. -/
theorem StartsAt.exists_follow_any_iff (h : StartsAt w base place) (hshort : ¬ base.IsLong) :
    (∃ found, w.follow false [.wild [.any]] base = .ok found) ↔
      ∀ m, (w.tree.find? (place ++ [m])).isSome = true → ¬ (base.child m).IsLong := by
  have hnode := FileTree.isSome_of_isDirectory h.isDirectory
  have hstep (f : Path) : w.StepsTo false (.wild [.any]) base f ↔
      ∃ m, (w.tree.find? (place ++ [m])).isSome = true ∧ f = base.child m := by
    have hwild : w.StepsTo false (.wild [.any]) (w.spelled base place) f ↔ _ :=
      h.stepsTo_wild_iff List.prefix_rfl hnode
    simpa only [h.spelled_concat List.prefix_rfl, h.spelled_self, fits_any, true_and] using hwild
  have hlook {m : String} (hm : (w.tree.find? (place ++ [m])).isSome = true) :
      (∃ found, w.follow false [] (base.child m) = .ok found) ↔ ¬ (base.child m).IsLong := by
    have hcases := h.follow_nil (List.prefix_append place [m]) hm
    rw [h.spelled_concat List.prefix_rfl, h.spelled_self] at hcases
    rcases hcases with ⟨hlong, herror⟩ | ⟨hshort, hfound⟩
    · simp [herror, hlong]
    · exact ⟨fun _ => hshort, fun _ => hfound⟩
  rw [exists_follow_cons_eq_ok_iff]
  constructor
  · rintro ⟨-, hon⟩ m hm
    exact (hlook hm).1 (hon _ ((hstep _).2 ⟨m, hm, rfl⟩))
  · intro hall
    refine ⟨h.enter_eq_ok hshort, fun f hf => ?_⟩
    obtain ⟨m, hm, rfl⟩ := (hstep f).1 hf
    exact (hlook hm).2 (hall m hm)

/-- From a directory with a single one in it, a search goes into that one and out of it again. -/
theorem StartsAt.exists_follow_round_iff (h : StartsAt w base place)
    (hn : ∀ m, w.tree.isDirectory (place ++ [m]) = true ↔ m = n)
    (hshort : ¬ ((base.child n).child "..").IsLong)
    {steps : List Glob.Step} (hsteps : steps ≠ []) :
    (∃ found, w.follow false (.wild [.any] :: .plain ".." :: steps) base = .ok found) ↔
      ∃ found, w.follow false steps ((base.child n).child "..") = .ok found := by
  have hdir := (hn n).2 rfl
  have hinto := h.into hdir
  have hbase : ¬ base.IsLong := fun hlong => hshort (isLong_of_child (isLong_of_child hlong))
  have hback : w.isThere true ((base.child n).child "..") = .ok true :=
    hinto.outOf.isDirectory_eq_ok hshort
  have hstep (f : Path) : w.StepsTo true (.wild [.any]) base f ↔ f = base.child n := by
    constructor
    · rintro ⟨m, hm, rfl, hin⟩
      rw [placeOf_child (List.mem_filter.1 hm).1, h.placeOf_eq] at hin
      rw [(hn m).1 (hin rfl)]
    · rintro rfl
      have hmem : n ∈ w.tree.names (base.placeOf w.current) := by
        rw [h.placeOf_eq]
        exact FileTree.mem_names.2 (FileTree.isSome_of_isDirectory hdir)
      exact ⟨n, List.mem_filter.2 ⟨hmem, fits_any n⟩, rfl, fun _ => by rwa [hinto.placeOf_eq]⟩
  have hout : (∃ found, w.follow false (.plain ".." :: steps) (base.child n) = .ok found) ↔
      ∃ found, w.follow false steps ((base.child n).child "..") = .ok found := by
    have hinner : (false || !steps.isEmpty) = true := by simp [hsteps]
    rw [exists_follow_cons_eq_ok_iff, hinner]
    simp [Fails, StepsTo, hback]
  have hinner : (false || !(Glob.Step.plain ".." :: steps).isEmpty) = true := rfl
  rw [exists_follow_cons_eq_ok_iff, hinner]
  simp only [hstep, forall_eq, hout]
  exact and_iff_right (h.enter_eq_ok hbase)

/-- **A roundabout search comes to an end just where nothing that it comes to is too long to be
looked at.** There is only one directory to go round through, so all rounds are alike. -/
theorem StartsAt.exists_follow_roundabout_iff (h : StartsAt w base place)
    (hn : ∀ m, w.tree.isDirectory (place ++ [m]) = true ↔ m = n) {k : Nat}
    (hshort : ¬ (rounds n k base).IsLong) :
    (∃ found, w.follow false (Glob.roundaboutSteps k) base = .ok found) ↔
      ∀ m, (w.tree.find? (place ++ [m])).isSome = true → ¬ ((rounds n k base).child m).IsLong := by
  induction k generalizing base with
  | zero => exact h.exists_follow_any_iff hshort
  | succ k ih =>
    have hround : ¬ ((base.child n).child "..").IsLong :=
      fun hlong => hshort (isLong_rounds hlong n k)
    have hsteps : Glob.roundaboutSteps k ≠ [] := by cases k <;> simp [Glob.roundaboutSteps]
    exact (h.exists_follow_round_iff hn hround hsteps).trans
      (ih (h.into ((hn n).2 rfl)).outOf hshort)

/-! ## The length of a roundabout -/

theorem anchor_rounds (n : String) (k : Nat) (p : Path) : (rounds n k p).anchor = p.anchor := by
  induction k generalizing p with
  | zero => rfl
  | succ k ih => exact ih _

/-- **Each round adds the bytes of the name and four more,** for two slashes and the way back. -/
theorem namesSize_rounds (n : String) (k : Nat) (p : Path) :
    Path.namesSize (rounds n k p).names =
      Path.namesSize p.names + k * (Text.Utf8.size n.toList + 4) := by
  have hup : Path.namesSize [".."] = 3 := by decide
  induction k generalizing p with
  | zero => simp [rounds]
  | succ k ih =>
    rw [rounds, ih, Path.child, Path.child, Path.namesSize_append, Path.namesSize_append,
      Path.namesSize_singleton, hup, Nat.succ_mul]
    omega

/-- **The bytes of a path behind a roundabout.** It grows with each round, and so it is too long
from some round on. -/
theorem size_child_rounds (n : String) (k : Nat) (p : Path) (m : String) :
    Text.Utf8.size ((rounds n k p).child m).toString.toList = Text.Utf8.size p.anchor.text.toList +
      Path.namesSize p.names + k * (Text.Utf8.size n.toList + 4) + Text.Utf8.size m.toList := by
  have hsize := Path.size_toString (p := (rounds n k p).child m) (by simp [Path.child])
  have hnames : Path.namesSize ((rounds n k p).child m).names =
      Path.namesSize p.names + k * (Text.Utf8.size n.toList + 4) +
        (Text.Utf8.size m.toList + 1) := by
    rw [Path.child, Path.namesSize_append, Path.namesSize_singleton, namesSize_rounds]
  have hanchor : ((rounds n k p).child m).anchor = p.anchor := anchor_rounds n k p
  rw [hnames, hanchor] at hsize
  omega

end Workspace
end MemberHarvest
