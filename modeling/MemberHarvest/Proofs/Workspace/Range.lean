import MemberHarvest.Proofs.Workspace.Searching

/-!
# Proofs/Workspace/Range — what a search looks at

On its way a search looks at more paths than it reaches: at each directory that it looks into, at
each name that it asks for, and at what it arrives at (`LooksAt`). A search comes to an end just
where none of these paths is refused for its length, and otherwise it ends with the refusal of one
of them (`exists_follow_eq_ok_iff`, `follow_failsAs_looksAt`).
-/

namespace MemberHarvest.Workspace

open Outcome
open MemberHarvest.Path (Place)

variable {w : Workspace} {p q f base : Path} {e : Failure}
  {inner directoriesOnly : Bool} {s : Glob.Step}
  {steps rest : List Glob.Step} {pattern : String} {g : Glob}

/-! ## Steps -/

/-- A step looks at a path: at a directory that it looks into, or at the name that it asks for. -/
def LooksFor (w : Workspace) : Glob.Step → Path → Path → Prop
  | .everywhere, p, f => f ∈ w.directoriesFrom p
  | .wild _, p, f => f = p
  | .plain name, p, f => f = p.child name

/-- Names of the tree add no NUL to a path. -/
theorem holdsNul_append {place ns : Place} (hp : p.holdsNul = false)
    (hplace : (w.tree.find? place).isSome = true) (hns : ∀ n ∈ ns, n ∈ place) :
    (Path.mk p.anchor (p.names ++ ns)).holdsNul = false := by
  have hnames := FileTree.holdsNul_of_isSome hplace .root
  rw [Path.holdsNul, List.any_eq_false] at hp hnames ⊢
  intro n hn
  rcases List.mem_append.1 hn with hn | hn
  · exact hp n hn
  · exact hnames n (hns n hn)

/-- No directory of a tree has the NUL character in its path. -/
theorem holdsNul_of_mem_directoriesFrom (hp : p.holdsNul = false) (hf : f ∈ w.directoriesFrom p) :
    f.holdsNul = false := by
  obtain ⟨d, hd, rfl⟩ := List.mem_map.1 hf
  have hnode := FileTree.isSome_of_isDirectory (FileTree.mem_directoriesFrom.1 hd).2
  exact holdsNul_append hp hnode fun n hn => List.mem_of_mem_drop hn

/-- **No step leads to a path with NUL.** The names that are stepped to are names of nodes, or of
the pattern. -/
theorem holdsNul_of_stepsTo (hp : p.holdsNul = false) (h : w.StepsTo inner s p q) :
    q.holdsNul = false := by
  cases s with
  | everywhere => exact holdsNul_of_mem_directoriesFrom hp h
  | wild pattern =>
    obtain ⟨n, hn, rfl, -⟩ := h
    have hnode := FileTree.mem_names.1 (List.mem_filter.1 hn).1
    exact holdsNul_append hp hnode (by simp)
  | plain name =>
    obtain ⟨rfl, hthere⟩ := h
    by_contra hnul
    rw [Bool.not_eq_false] at hnul
    cases inner <;> simp [isThere, isDirectory, exists?, probe, hnul] at hthere

/-- **A step fails where a path that it looks at is refused.** A path is refused if it is too long
as a whole or in one of its names. -/
theorem fails_iff (hp : p.holdsNul = false) :
    w.Fails inner s p e ↔ ∃ f, w.LooksFor s p f ∧ w.IsRefused f ∧ e = tooLong f := by
  cases s with
  | everywhere =>
    refine exists_congr fun f => and_congr_right fun hf => ?_
    rw [enter_eq_error_iff, IsRefused, and_iff_right (holdsNul_of_mem_directoriesFrom hp hf)]
  | wild pattern =>
    simp only [Fails, LooksFor, enter_eq_error_iff, IsRefused, hp, true_and, exists_eq_left]
  | plain name =>
    simp only [Fails, LooksFor, exists_eq_left]
    cases inner <;> exact probe_eq_error_iff

/-! ## Searches -/

/-- A search looks at a path: in its first step, in what it goes on with, or where it arrives. -/
def LooksAt (w : Workspace) (directoriesOnly : Bool) : List Glob.Step → Path → Path → Prop
  | [], p, f => f = p
  | s :: rest, p, f =>
    w.LooksFor s p f ∨ ∃ q, w.StepsTo (directoriesOnly || !rest.isEmpty) s p q ∧
      LooksAt w directoriesOnly rest q f

/-- **A search comes to an end just where no path that it looks at is refused.** It looks at every
path that an earlier step leads to, and so one refusal is enough. -/
theorem exists_follow_eq_ok_iff (hp : p.holdsNul = false) :
    (∃ found, w.follow directoriesOnly steps p = .ok found) ↔
    ∀ f, w.LooksAt directoriesOnly steps p f → ¬ w.IsRefused f := by
  induction steps generalizing p with
  | nil =>
    simp only [follow, LooksAt, forall_eq]
    cases hfile : w.isFile p with
    | ok there =>
      have hrefused : ¬ w.IsRefused p := by
        intro hrefused
        rw [isFile, probe_eq_error_iff.2 ⟨hrefused, rfl⟩] at hfile
        cases hfile
      cases there <;> exact iff_of_true ⟨_, rfl⟩ hrefused
    | error e =>
      refine iff_of_false ?_ (not_not.2 (probe_eq_error_iff.1 hfile).1)
      rintro ⟨found, hfound⟩
      cases hfound
  | cons s rest ih =>
    rw [exists_follow_cons_eq_ok_iff]
    have hstep : (∀ e, ¬ w.Fails (directoriesOnly || !rest.isEmpty) s p e) ↔
        ∀ f, w.LooksFor s p f → ¬ w.IsRefused f := by
      simp only [fails_iff hp]
      constructor
      · exact fun h f hf hrefused => h _ ⟨f, hf, hrefused, rfl⟩
      · rintro h e ⟨f, hf, hrefused, -⟩
        exact h f hf hrefused
    rw [hstep]
    constructor
    · rintro ⟨hlooks, hon⟩ f (hf | ⟨q, hq, hf⟩)
      · exact hlooks f hf
      · exact (ih (holdsNul_of_stepsTo hp hq)).1 (hon q hq) f hf
    · intro h
      refine ⟨fun f hf => h f (.inl hf), fun q hq => ?_⟩
      exact (ih (holdsNul_of_stepsTo hp hq)).2 fun f hf => h f (.inr ⟨q, hq, hf⟩)

/-- A search that comes to no end is ended by the refusal of a path that it looks at. -/
theorem follow_failsAs_looksAt (hp : p.holdsNul = false) :
    FailsAs (fun e => ∃ f, w.LooksAt directoriesOnly steps p f ∧ w.IsRefused f ∧ e = tooLong f)
      (w.follow directoriesOnly steps p) := by
  induction steps generalizing p with
  | nil =>
    refine .bind (fun e he => ?_) fun there _ => ?_
    · obtain ⟨hrefused, rfl⟩ := probe_eq_error_iff.1 he
      exact ⟨p, rfl, hrefused, rfl⟩
    · cases there <;> exact .ok _
  | cons s rest ih =>
    intro e he
    rcases of_follow_cons_eq_error he with he | ⟨q, hq, he⟩
    · obtain ⟨f, hf, hrefused, rfl⟩ := (fails_iff hp).1 he
      exact ⟨f, .inl hf, hrefused, rfl⟩
    · obtain ⟨f, hf, hrefused, rfl⟩ := ih (holdsNul_of_stepsTo hp hq) e he
      exact ⟨f, .inr ⟨q, hq, hf⟩, hrefused, rfl⟩

/-! ## Globs -/

/-- The search of a glob looks at a path. -/
def Examines (w : Workspace) (base : Path) (pattern : String) (f : Path) : Prop :=
  ∃ g, Glob.ofString pattern = .ok g ∧ w.LooksAt g.directoriesOnly g.steps base f

/-- The paths that a search examines are those that its steps look at. -/
theorem examines_iff (hg : Glob.ofString pattern = .ok g) :
    w.Examines base pattern f ↔ w.LooksAt g.directoriesOnly g.steps base f := by
  constructor
  · rintro ⟨g', hg', hf⟩
    cases hg.symm.trans hg'
    exact hf
  · exact fun hf => ⟨g, hg, hf⟩

/-- **A glob comes to an end just where no path that its search looks at is refused.** This holds
for any legal pattern. -/
theorem exists_glob_eq_ok_iff (hbase : w.isDirectory base = .ok true)
    (hg : Glob.ofString pattern = .ok g) :
    (∃ found, w.glob base pattern = .ok found) ↔ ∀ f, w.Examines base pattern f →
      ¬ w.IsRefused f := by
  simp only [examines_iff hg]
  rw [glob_of_isDirectory hbase hg, exists_map_eq_ok_iff,
    exists_follow_eq_ok_iff (startsAt_of_isDirectory hbase).holdsNul]

/-- **A search fails at a refused path that it must examine.** The failure tells that path. -/
theorem glob_failsAs_examines (hbase : w.isDirectory base = .ok true)
    (hg : Glob.ofString pattern = .ok g) :
    FailsAs (fun e => ∃ f, w.Examines base pattern f ∧ w.IsRefused f ∧ e = tooLong f)
      (w.glob base pattern) := by
  simp only [examines_iff hg]
  rw [glob_of_isDirectory hbase hg]
  exact .map (follow_failsAs_looksAt (startsAt_of_isDirectory hbase).holdsNul)

end MemberHarvest.Workspace
