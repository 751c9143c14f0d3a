import MemberHarvest.Proofs.Path.Normal
import MemberHarvest.Proofs.Project.Compile
import MemberHarvest.Proofs.Text.Trimmed

/-!
# Proofs/Project/Locating — the paths that project texts lead to

A project text is followed by its names alone, from the root or from a base, and leads to a normal
path (`isNormal_of_locate`). Either slash will do (`TurnsSlashes.ofProjectText_eq`), and a slash
between two texts leads on from where the first one leads (`locate_append_slash`). So project texts
act on absolute paths (`locate_lexical`), and none of them leads above the root, however far it
climbs (`locate_climb`).
-/

namespace MemberHarvest

/-! ## The paths of project texts -/

namespace Path

variable {base : Path} {cwd : Place} {cs ds : List Char} {raw raw' a b : String}

/-- Turning backslashes and trimming commute, since neither slash is blank. -/
theorem slashes_trim (cs : List Char) : slashes (Text.trim cs) = Text.trim (slashes cs) := by
  refine (Text.trim_map (fun c => ?_) cs).symm
  split
  · rename_i hc
    subst hc
    decide
  · rfl

/-- Some backslashes of a text are turned into slashes. -/
def TurnsSlashes (cs ds : List Char) : Prop :=
  List.Forall₂ (fun c d => d = c ∨ c = '\\' ∧ d = '/') cs ds

/-- Two texts that differ in the direction of slashes are turned into one. -/
theorem TurnsSlashes.slashes_eq (h : TurnsSlashes cs ds) : slashes ds = slashes cs := by
  induction h with
  | nil => rfl
  | cons hc _ ih =>
    rw [slashes, slashes, List.map_cons, List.map_cons]
    refine congr (congrArg _ ?_) ih
    rcases hc with rfl | ⟨rfl, rfl⟩
    · rfl
    · decide

/-- **It makes no difference which kind of slash a project text has.** Slashes are turned before
anything else is read. -/
theorem TurnsSlashes.ofProjectText_eq (h : TurnsSlashes raw.toList raw'.toList) :
    ofProjectText raw' = ofProjectText raw := by
  rw [ofProjectText, ofProjectText, slashes_trim, slashes_trim, h.slashes_eq]

/-- A path is absolute if its text begins with a slash. -/
theorem isAbsolute_ofString_iff {s : String} :
    (ofString s).isAbsolute = true ↔ s.toList.head? = some '/' := by
  constructor
  · intro h
    by_contra hhead
    rw [isAbsolute, ofString, anchorOf_of_head? hhead] at h
    cases h
  · intro h
    obtain ⟨cs, hcs⟩ := List.head?_eq_some_iff.1 h
    rw [isAbsolute, ofString, hcs]
    unfold anchorOf
    split <;> simp_all

/-- **A slash between two project texts leads on from the path of the first.** A text with blanks at
its ends would lose them when it stands alone, but not inside the other one. -/
theorem ofProjectText_append_slash (ha : Text.trim a.toList = a.toList)
    (hb : Text.trim b.toList = b.toList) (hne : a ≠ "") :
    (ofProjectText (a ++ "/" ++ b)).isAbsolute = (ofProjectText a).isAbsolute ∧
      (ofProjectText (a ++ "/" ++ b)).names =
        (ofProjectText a).names ++ (ofProjectText b).names := by
  have hnil : a.toList ≠ [] := by simpa using hne
  have htext : slashes (Text.trim (a ++ "/" ++ b).toList) =
      slashes (Text.trim a.toList) ++ '/' :: slashes (Text.trim b.toList) := by
    have hjoin : (a ++ "/" ++ b).toList = a.toList ++ '/' :: b.toList := by simp
    rw [hjoin, Text.trim_append_slash ha hb hnil, ha, hb]
    simp [slashes]
  have hfront : slashes (Text.trim a.toList) ≠ [] := by
    rw [ha]
    simpa [slashes] using hnil
  simp only [ofProjectText, htext]
  constructor
  · rw [Bool.eq_iff_iff, isAbsolute_ofString_iff, isAbsolute_ofString_iff, String.toList_ofList,
      String.toList_ofList, List.head?_append_of_ne_nil _ hfront]
  · simp only [ofString, String.toList_ofList]
    exact namesOf_append_slash _ _

theorem isPlain_join {p q : Path} (hp : p.IsPlain) (hq : q.IsPlain) : (p.join q).IsPlain := by
  rw [join]
  split
  · exact hq
  · exact fun n hn => (List.mem_append.1 hn).elim (hp n) (hq n)

/-- What is joined to an absolute path is absolute. -/
theorem isAbsolute_join {p : Path} (hp : p.isAbsolute = true) (q : Path) :
    (p.join q).isAbsolute = true := by
  rw [join]
  split
  · assumption
  · exact hp

/-- Where a project text leads: along its names, from the root or from where the base lies. -/
theorem resolveRelative_eq (base : Path) (cwd : Place) (raw : String) :
    base.resolveRelative cwd raw =
    ofPlace (follow (if (ofProjectText raw).isAbsolute then [] else base.placeOf cwd)
      (ofProjectText raw).names) := by
  rw [resolveRelative, resolve, join]
  by_cases habsolute : (ofProjectText raw).isAbsolute = true
  · rw [if_pos habsolute, if_pos habsolute, placeOf, if_pos habsolute]
  · rw [if_neg habsolute, if_neg habsolute, placeOf, placeOf, follow_append]
    rfl

/-- **To follow two texts with a slash between them is to follow one after the other.** The second
text starts over if it is absolute, and so it must not be. -/
theorem resolveRelative_append_slash (habsolute : base.isAbsolute = true)
    (ha : Text.trim a.toList = a.toList) (hb : Text.trim b.toList = b.toList) (hne : a ≠ "")
    (hrelative : (ofProjectText b).isAbsolute = false) :
    base.resolveRelative cwd (a ++ "/" ++ b) =
      (base.resolveRelative cwd a).resolveRelative cwd b := by
  obtain ⟨hanchor, hnames⟩ := ofProjectText_append_slash ha hb hne
  have hstart : ".." ∉ if (ofProjectText a).isAbsolute then [] else base.placeOf cwd := by
    split
    · exact List.not_mem_nil
    · rw [placeOf, if_pos habsolute]
      exact dotdot_not_mem_follow List.not_mem_nil base.names
  have hplace (here : Place) (h : ".." ∉ here) : (ofPlace here).placeOf cwd = here :=
    (follow_of_not_mem h).trans (List.nil_append here)
  rw [resolveRelative_eq, resolveRelative_eq _ cwd b, resolveRelative_eq _ cwd a, hanchor,
    hnames, hrelative, follow_append]
  simp only [Bool.false_eq_true, if_false]
  rw [hplace _ (dotdot_not_mem_follow hstart _)]

/-! ## Climbing -/

/-- The text that leads a number of names up. -/
def climb (k : Nat) : String := "/".intercalate (List.replicate k "..")

/-- The text of a climb has dots and slashes only. -/
theorem mem_toList_climb {k : Nat} {c : Char} (h : c ∈ (climb k).toList) : c = '.' ∨ c = '/' := by
  induction k with
  | zero => exact absurd h List.not_mem_nil
  | succ k ih =>
    cases k with
    | zero => exact .inl (by simpa [climb] using h)
    | succ k =>
      rw [climb, List.replicate_succ, toList_intercalate_cons ".." (by simp), List.mem_append,
        List.mem_cons] at h
      rcases h with hup | hslash | hrest
      · exact .inl (by simpa using hup)
      · exact .inr hslash
      · exact ih hrest

theorem ofProjectText_climb (k : Nat) :
    ofProjectText (climb k) = ⟨.here, List.replicate k ".."⟩ := by
  have hchar {c : Char} (hc : c ∈ (climb k).toList) : Text.isBlank c = false ∧ c ≠ '\\' := by
    rcases mem_toList_climb hc with rfl | rfl <;> decide
  have hkept : slashes (climb k).toList = (climb k).toList :=
    (List.map_congr_left fun c hc => if_neg (hchar hc).2).trans (List.map_id _)
  have hplain : (Path.mk .here (List.replicate k "..")).IsPlain := by
    rintro n hn
    obtain rfl := List.eq_of_mem_replicate hn
    decide
  rw [ofProjectText, Text.trim_of_forall fun c hc => (hchar hc).1, hkept,
    String.ofList_toList, climb, ofString_intercalate hplain]

end Path

/-! ## Locating project texts -/

namespace Project

open Outcome
open MemberHarvest.Path (Place TurnsSlashes climb)

variable {base p : Path} {cwd : Place} {raw raw' a b : String}

/-- A project text counts for the path that it denotes. -/
theorem locate_congr (h : Path.ofProjectText raw' = Path.ofProjectText raw)
    (cwd : Place) (base : Path) :
    locate cwd base raw' = locate cwd base raw := by
  rw [locate, locate, Path.resolveRelative, Path.resolveRelative, h]

/-- **What a project text leads to from an absolute path is a normal path.** No directory on the way
has to exist. -/
theorem isNormal_of_locate (hplain : base.IsPlain) (habsolute : base.isAbsolute = true)
    (h : locate cwd base raw = .ok p) : p.IsNormal := by
  rw [locate] at h
  split at h
  · cases h
  · rename_i hnul
    obtain rfl := Except.ok.inj h
    exact Path.isNormal_resolve (Path.isPlain_join hplain (Path.isPlain_ofString _))
      (Path.isAbsolute_join habsolute _) (Bool.not_eq_true _ ▸ hnul)

/-- **To locate two texts with a slash between them is to locate one from where the other leads.**
The NUL character in either text ends both in the same failure. -/
theorem locate_append_slash (hplain : base.IsPlain) (habsolute : base.isAbsolute = true)
    (hnul : base.holdsNul = false) (ha : Text.trim a.toList = a.toList)
    (hb : Text.trim b.toList = b.toList) (hne : a ≠ "")
    (hrelative : (Path.ofProjectText b).isAbsolute = false) (cwd : Place) :
    locate cwd base (a ++ "/" ++ b) = locate cwd base a >>= fun p => locate cwd p b := by
  have hmem : '\x00' ∈ (a ++ "/" ++ b).toList ↔ '\x00' ∈ a.toList ∨ '\x00' ∈ b.toList := by simp
  by_cases hfirst : '\x00' ∈ a.toList
  · rw [locate_eq hnul, locate_eq hnul, if_pos (hmem.2 (.inl hfirst)), if_pos hfirst]
    rfl
  · have hlocate : locate cwd base a = .ok (base.resolveRelative cwd a) := by
      rw [locate_eq hnul, if_neg hfirst]
    rw [hlocate, ok_bind, locate_eq hnul,
      locate_eq (isNormal_of_locate hplain habsolute hlocate).holdsNul,
      Path.resolveRelative_append_slash habsolute ha hb hne hrelative]
    simp only [hmem, hfirst, false_or]

/-- As many names are taken back as there are. -/
theorem locate_climb (h : p.IsNormal) (cwd : Place) (k : Nat) :
    locate cwd p (climb k) = .ok (.ofPlace (p.names.take (p.names.length - k))) := by
  have hnul : '\x00' ∉ (climb k).toList := by
    intro hmem
    rcases Path.mem_toList_climb hmem with hc | hc <;> exact absurd hc (by decide)
  have hrelative : (Path.mk .here (List.replicate k "..")).isAbsolute = false := rfl
  rw [locate_eq h.holdsNul, if_neg hnul, Path.resolveRelative_eq, Path.ofProjectText_climb,
    h.placeOf_eq, hrelative, if_neg Bool.false_ne_true, Path.follow_replicate_dotdot]

/-- **Project texts act on absolute paths by their names alone.** A text without NUL leads to a
normal path, whatever the current directory and with either slash. From there each `..` takes back
one name, and at the root none, so that nothing leads above it. Two texts with a slash between them
lead where the second leads from where the first does. -/
theorem locate_lexical {base : Path} (hplain : base.IsPlain) (habsolute : base.isAbsolute = true)
    (hnul : base.holdsNul = false) :
    (∀ raw : String, '\x00' ∉ raw.toList → ∃ p : Path, p.IsNormal ∧
      (∀ cwd, locate cwd base raw = .ok p) ∧
        (∀ raw' : String, TurnsSlashes raw.toList raw'.toList → ∀ cwd,
          locate cwd base raw' = .ok p) ∧
        ∀ k cwd, locate cwd p (climb k) = .ok (.ofPlace (p.names.take (p.names.length - k)))) ∧
    ∀ a b : String, Text.trim a.toList = a.toList → Text.trim b.toList = b.toList → a ≠ "" →
      b.toList.head? ≠ some '/' → b.toList.head? ≠ some '\\' → ∀ cwd,
        locate cwd base (a ++ "/" ++ b) = locate cwd base a >>= fun p => locate cwd p b := by
  refine ⟨fun raw hraw => ?_, fun a b ha hb hne hslash hback cwd => ?_⟩
  · have hlocate (cwd : Place) : locate cwd base raw = .ok (base.resolveRelative [] raw) := by
      rw [locate_eq hnul, if_neg hraw, Path.resolveRelative_eq, Path.resolveRelative_eq,
        Path.placeOf, Path.placeOf, if_pos habsolute, if_pos habsolute]
    have hnormal : (base.resolveRelative [] raw).IsNormal :=
      isNormal_of_locate hplain habsolute (hlocate [])
    refine ⟨_, hnormal, hlocate, fun raw' hturns cwd => ?_, fun k cwd => locate_climb hnormal cwd k⟩
    rw [locate_congr hturns.ofProjectText_eq, hlocate]
  · refine locate_append_slash hplain habsolute hnul ha hb hne ?_ cwd
    rw [Path.ofProjectText, hb, ← Bool.not_eq_true, Path.isAbsolute_ofString_iff,
      String.toList_ofList]
    intro hhead
    obtain ⟨c, hc, hfirst⟩ := Option.map_eq_some_iff.1 (List.head?_map ▸ hhead)
    split at hfirst
    · rename_i heq
      exact hback (heq ▸ hc)
    · exact hslash (hfirst ▸ hc)

/-- A location that climbs beyond the root, and another one from there. The root is its own
parent. -/
theorem locate_lexical_aboveRoot :
    (Path.ofString "/s/p").IsPlain ∧ (Path.ofString "/s/p").isAbsolute = true ∧
      (Path.ofString "/s/p").holdsNul = false ∧
      (locate ["t"] (.ofString "/s/p") "..\\q\\../../.." >>= fun p =>
        locate ["t"] p "x/./..\\y z") = .ok (.ofPlace ["y z"]) := by
  have hplain : (Path.ofString "/s/p").IsPlain := by decide
  obtain ⟨-, hcomposed⟩ := locate_lexical hplain (by decide) (by decide)
  refine ⟨hplain, by decide, by decide, ?_⟩
  rw [← hcomposed "..\\q\\../../.." "x/./..\\y z" (by decide) (by decide) (by decide)
    (by decide) (by decide)]
  decide

end Project
end MemberHarvest
