import MemberHarvest.Proofs.Distinct
import MemberHarvest.Proofs.FileTree.Below
import MemberHarvest.Proofs.Workspace.Looking

/-!
# Proofs/Workspace/Finding — what a glob finds

Each step of a glob leads from a path to others (`StepsTo`), and a search by all steps `Reaches` the
paths at which it looks in the end. A search that comes to an end has gone on from every path that a
step leads to (`of_follow_cons`), so what it finds are the files among the paths that it reaches
(`mem_follow`).
-/

namespace MemberHarvest

open Outcome

/-- What several searches find together is found by one of them. -/
theorem Outcome.mem_of_flatten_mapM {α β ε : Type} {f : α → Except ε (List β)}
    {as : List α} {bs : List β} (h : List.flatten <$> as.mapM f = .ok bs) {b : β} :
    b ∈ bs ↔ ∃ a ∈ as, ∃ found, f a = .ok found ∧ b ∈ found := by
  obtain ⟨bss, hbss, rfl⟩ := map_eq_ok_iff.1 h
  rw [mapM_eq_ok_iff] at hbss
  clear h
  induction hbss with
  | nil => simp
  | cons ha _ ih => simp [ha, ih]

namespace Workspace

variable {w : Workspace} {directoriesOnly : Bool} {s : Glob.Step}
  {rest steps : List Glob.Step} {p f : Path} {found : List Path}

/-- Whether there is what a step with a name leads to; an inner step leads to directories only. -/
def isThere (w : Workspace) (inner : Bool) (p : Path) : Except Failure Bool :=
  if inner then w.isDirectory p else w.exists? p

/-- A step leads from a path to another one. -/
def StepsTo (w : Workspace) (inner : Bool) : Glob.Step → Path → Path → Prop
  | .everywhere, p, q => q ∈ w.directoriesFrom p
  | .wild pattern, p, q =>
    ∃ n ∈ w.namesIn p pattern, q = p.child n ∧
      (inner = true → w.tree.isDirectory (q.placeOf w.current) = true)
  | .plain name, p, q => q = p.child name ∧ w.isThere inner (p.child name) = .ok true

/-- The search by steps from a path comes to look at a path. Every step but the last one is an inner
step, and the last one is where only directories are asked for. -/
def Reaches (w : Workspace) (directoriesOnly : Bool) : List Glob.Step → Path → Path → Prop
  | [], p, f => f = p
  | s :: rest, p, f => ∃ q, w.StepsTo (directoriesOnly || !rest.isEmpty) s p q ∧
    Reaches w directoriesOnly rest q f

/-- A step fails: at a directory that cannot be looked into, or at a path that cannot be looked
at. -/
def Fails (w : Workspace) (inner : Bool) : Glob.Step → Path → Failure → Prop
  | .everywhere, p, e => ∃ q ∈ w.directoriesFrom p, w.enter q = .error e
  | .wild _, p, e => w.enter p = .error e
  | .plain name, p, e => w.isThere inner (p.child name) = .error e

/-- The paths that a step with wildcards leads to. -/
theorem mem_wild_iff {inner : Bool} {pattern : Pattern} {q : Path} :
    (q ∈ if inner then ((w.namesIn p pattern).map p.child).filter fun q =>
      w.tree.isDirectory (q.placeOf w.current)
      else (w.namesIn p pattern).map p.child) ↔ w.StepsTo inner (.wild pattern) p q := by
  have hmem : q ∈ (w.namesIn p pattern).map p.child ↔ ∃ n ∈ w.namesIn p pattern, q = p.child n := by
    simp only [List.mem_map, eq_comm]
  cases inner with
  | false => simp only [Bool.false_eq_true, if_false, hmem, StepsTo, false_imp_iff, and_true]
  | true =>
    simp only [if_true, List.mem_filter, hmem, StepsTo, true_imp_iff]
    constructor
    · rintro ⟨⟨n, hn, hq⟩, hdir⟩
      exact ⟨n, hn, hq, hdir⟩
    · rintro ⟨n, hn, hq, hdir⟩
      exact ⟨⟨n, hn, hq⟩, hdir⟩

/-- **A search that succeeds has gone on from every path that its first step leads to.** What the
step leads to is collected first. -/
theorem of_follow_cons_eq_ok (h : w.follow directoriesOnly (s :: rest) p = .ok found) :
    (∀ e, ¬ w.Fails (directoriesOnly || !rest.isEmpty) s p e) ∧
      ∃ next : List Path, (∀ q, q ∈ next ↔ w.StepsTo (directoriesOnly || !rest.isEmpty) s p q) ∧
        List.flatten <$> next.mapM (w.follow directoriesOnly rest) = .ok found := by
  rw [follow.eq_def] at h
  cases s with
  | everywhere =>
    obtain ⟨founds, hfounds, rfl⟩ := map_eq_ok_iff.1 h
    have hlooked {q : Path} {l : List Path} (hq : (do
        let found ← w.follow directoriesOnly rest q
        w.enter q
        return found) = .ok l) : w.enter q = .ok () ∧ w.follow directoriesOnly rest q = .ok l := by
      obtain ⟨found, hfound, hq⟩ := bind_eq_ok_iff.1 hq
      obtain ⟨⟨⟩, henter, hq⟩ := bind_eq_ok_iff.1 hq
      exact ⟨henter, Except.ok.inj hq ▸ hfound⟩
    refine ⟨fun e => ?_, w.directoriesFrom p, fun _ => Iff.rfl, map_eq_ok_iff.2 ⟨founds, ?_, rfl⟩⟩
    · rintro ⟨q, hq, he⟩
      obtain ⟨l, hl⟩ := exists_mapM_eq_ok_iff.1 ⟨_, hfounds⟩ q hq
      cases he.symm.trans (hlooked hl).1
    · exact mapM_eq_ok_iff.2 ((mapM_eq_ok_iff.1 hfounds).imp fun _ _ hq => (hlooked hq).2)
  | wild pattern =>
    obtain ⟨⟨⟩, henter, h⟩ := bind_eq_ok_iff.1 h
    exact ⟨fun e he => (by cases henter.symm.trans he), _, fun q => mem_wild_iff, h⟩
  | plain name =>
    obtain ⟨there, hthere, h⟩ := bind_eq_ok_iff.1 h
    change w.isThere (directoriesOnly || !rest.isEmpty) (p.child name) = .ok there at hthere
    refine ⟨fun e he => (by cases hthere.symm.trans he), if there then [p.child name]
      else [], fun q => ?_, ?_⟩
    · cases there <;> simp only [StepsTo, hthere] <;> simp
    · cases there with
      | false => exact h
      | true => exact map_eq_ok_iff.2 ⟨[found], mapM_eq_ok_iff.2 (.cons h .nil), by simp⟩

/-- A search that fails does so in its first step, or in what it goes on with. -/
theorem of_follow_cons_eq_error {e : Failure}
    (h : w.follow directoriesOnly (s :: rest) p = .error e) :
    w.Fails (directoriesOnly || !rest.isEmpty) s p e ∨
      ∃ q, w.StepsTo (directoriesOnly || !rest.isEmpty) s p q ∧
        w.follow directoriesOnly rest q = .error e := by
  rw [follow.eq_def] at h
  cases s with
  | everywhere =>
    obtain ⟨front, q, back, hq, -, he⟩ := mapM_eq_error_iff.1 (map_eq_error_iff.1 h)
    have hmem : q ∈ w.directoriesFrom p := by rw [hq]; simp
    rcases bind_eq_error_iff.1 he with he | ⟨_, -, he⟩
    · exact .inr ⟨q, hmem, he⟩
    rcases bind_eq_error_iff.1 he with he | ⟨_, -, he⟩
    · exact .inl ⟨q, hmem, he⟩
    · cases he
  | wild pattern =>
    rcases bind_eq_error_iff.1 h with he | ⟨_, -, h⟩
    · exact .inl he
    · obtain ⟨front, q, back, hq, -, he⟩ := mapM_eq_error_iff.1 (map_eq_error_iff.1 h)
      exact .inr ⟨q, mem_wild_iff.1 (by rw [hq]; simp), he⟩
  | plain name =>
    rcases bind_eq_error_iff.1 h with he | ⟨there, hthere, h⟩
    · exact .inl he
    · cases there with
      | false => cases h
      | true => exact .inr ⟨p.child name, ⟨rfl, hthere⟩, h⟩

/-- **A search comes to an end just where its first step and all that it goes on with do.** With it,
the end of a search is proved by induction on its steps. -/
theorem exists_follow_cons_eq_ok_iff :
    (∃ found, w.follow directoriesOnly (s :: rest) p = .ok found) ↔
    (∀ e, ¬ w.Fails (directoriesOnly || !rest.isEmpty) s p e) ∧
      ∀ q, w.StepsTo (directoriesOnly || !rest.isEmpty) s p q →
        ∃ found, w.follow directoriesOnly rest q = .ok found := by
  constructor
  · rintro ⟨found, h⟩
    obtain ⟨hfails, next, hnext, hfound⟩ := of_follow_cons_eq_ok h
    exact ⟨hfails, fun q hq => exists_mapM_eq_ok_iff.1 (exists_map_eq_ok_iff.1 ⟨_, hfound⟩)
      q ((hnext q).2 hq)⟩
  · rintro ⟨hfails, hon⟩
    cases h : w.follow directoriesOnly (s :: rest) p with
    | ok found => exact ⟨found, rfl⟩
    | error e =>
      rcases of_follow_cons_eq_error h with he | ⟨q, hq, he⟩
      · exact absurd he (hfails e)
      · obtain ⟨found, hfound⟩ := hon q hq
        cases he.symm.trans hfound

/-- **A search finds the files that it reaches.** A file may be found by several ways, and so it may
be listed several times. -/
theorem mem_follow (h : w.follow directoriesOnly steps p = .ok found) :
    f ∈ found ↔ w.Reaches directoriesOnly steps p f ∧ w.isFile f = .ok true := by
  induction steps generalizing p found with
  | nil =>
    obtain ⟨there, hthere, h⟩ := bind_eq_ok_iff.1 h
    cases there with
    | false =>
      obtain rfl : [] = found := Except.ok.inj h
      simp only [Reaches, List.not_mem_nil, false_iff, not_and]
      rintro rfl
      simp [hthere]
    | true =>
      obtain rfl : [p] = found := Except.ok.inj h
      rw [Reaches, List.mem_singleton]
      exact ⟨fun hf => ⟨hf, hf ▸ hthere⟩, And.left⟩
  | cons s rest ih =>
    obtain ⟨-, next, hnext, hfound⟩ := of_follow_cons_eq_ok h
    have hon := exists_mapM_eq_ok_iff.1 (exists_map_eq_ok_iff.1 ⟨_, hfound⟩)
    rw [mem_of_flatten_mapM hfound, Reaches]
    simp only [hnext] at hon ⊢
    constructor
    · rintro ⟨q, hq, l, hl, hf⟩
      obtain ⟨hreach, hfile⟩ := (ih hl).1 hf
      exact ⟨⟨q, hq, hreach⟩, hfile⟩
    · rintro ⟨⟨q, hq, hreach⟩, hfile⟩
      obtain ⟨l, hl⟩ := hon q hq
      exact ⟨q, hq, l, hl, (ih hl).2 ⟨hreach, hfile⟩⟩

/-! ## Globs -/

variable {base : Path} {pattern : String} {g : Glob}

/-- In a directory, a search follows the steps of its pattern. -/
theorem glob_of_isDirectory (hbase : w.isDirectory base = .ok true)
    (hg : Glob.ofString pattern = .ok g) :
    w.glob base pattern = List.eraseDups <$> w.follow g.directoriesOnly g.steps base := by
  rw [glob, hg, hbase, map_eq_pure_bind]
  rfl

/-- **A glob finds every file that its search reaches, each once.** The same path counts once, while
the same file may have several paths. -/
theorem mem_and_nodup_of_glob (hbase : w.isDirectory base = .ok true)
    (hg : Glob.ofString pattern = .ok g) (h : w.glob base pattern = .ok found) :
    (∀ f, f ∈ found ↔ w.Reaches g.directoriesOnly g.steps base f ∧ w.isFile f = .ok true) ∧
      found.Nodup := by
  rw [glob_of_isDirectory hbase hg] at h
  obtain ⟨followed, hfollowed, rfl⟩ := map_eq_ok_iff.1 h
  exact ⟨fun f => List.mem_eraseDups.trans (mem_follow hfollowed),
    Distinct.nodup_eraseDups followed⟩

/-- **What is found is a file that the steps reach.** Directories are passed over, even where the
pattern fits them. -/
theorem reaches_of_mem_glob (h : w.glob base pattern = .ok found) (hf : f ∈ found) :
    ∃ g, Glob.ofString pattern = .ok g ∧ w.Reaches g.directoriesOnly g.steps base f ∧
      w.isFile f = .ok true := by
  obtain ⟨g, hg, hrest⟩ := bind_eq_ok_iff.1 h
  obtain ⟨there, hthere, hrest⟩ := bind_eq_ok_iff.1 hrest
  cases there with
  | false =>
    obtain rfl : [] = found := Except.ok.inj hrest
    exact absurd hf List.not_mem_nil
  | true => exact ⟨g, hg, ((mem_and_nodup_of_glob hthere hg h).1 f).1 hf⟩

end Workspace
end MemberHarvest
