import Mathlib.Data.List.Range
import MemberHarvest.Proofs.Outcome
import MemberHarvest.Source.Pool

/-!
# Proofs/Source/Pool — a pool answers as one worker does

Whatever ends first, a pool gives the answer that performing the tasks one after another gives
(`answers_as_inTurn`): all results in the order of the tasks, or the first failure in that order.
Two facts carry this. What has been taken at any time is what the first tasks give (`Sound.taken`),
and the next result is looked at only when it is there. A pool with a worker never gets stuck before
its answer (`exists_step`), and every step brings it closer to the end (`toDo_lt_of_step`).
-/

namespace MemberHarvest.Pool

variable {α β ε : Type} {perform : α → Except ε β} {tasks : List α} {workers : ℕ}
  {s t u : State ε β}

theorem Steps.trans (hst : Steps perform tasks workers s t)
    (htu : Steps perform tasks workers t u) :
    Steps perform tasks workers s u := by
  induction htu with
  | refl => exact hst
  | tail _ last ih => exact ih.tail last

/-! ## What holds of a pool at any time -/

/-- A pool in order: every started task runs or has ended, once, and with its own result; no more
tasks run than there are workers; what has been taken is what the first tasks give; and an answer is
that of the tasks in turn. -/
structure Sound (perform : α → Except ε β) (tasks : List α) (workers : ℕ) (s : State ε β) :
    Prop where
  started_le : s.started ≤ tasks.length
  once : (s.running ++ s.ended.map Prod.fst).Perm (List.range s.started)
  busy : s.running.length ≤ workers
  ended : ∀ i r, (i, r) ∈ s.ended → ∃ a, tasks[i]? = some a ∧ perform a = r
  taken_le : s.taken.length ≤ tasks.length
  taken : (tasks.take s.taken.length).mapM perform = .ok s.taken
  answer : ∀ r, s.answer = some r → r = tasks.mapM perform

theorem sound_start : Sound perform tasks workers .start where
  started_le := Nat.zero_le _
  once := .nil
  busy := Nat.zero_le _
  ended := by simp [State.start]
  taken_le := Nat.zero_le _
  taken := rfl
  answer := by simp [State.start]

namespace Sound

variable (h : Sound perform tasks workers s)

include h

/-- A result that has come stands for a task of the list. -/
theorem getElem_of_mem_ended {i : ℕ} {r : Except ε β} (hi : (i, r) ∈ s.ended) :
    ∃ hlt : i < tasks.length, perform tasks[i] = r := by
  obtain ⟨a, ha, hr⟩ := h.ended i r hi
  obtain ⟨hlt, rfl⟩ := List.getElem?_eq_some_iff.1 ha
  exact ⟨hlt, hr⟩

theorem begin (more : s.started < tasks.length) (free : s.running.length < workers) :
    Sound perform tasks workers { s with started := s.started + 1, running :=
      s.started :: s.running } where
  started_le := more
  once := by
    rw [List.range_succ]
    exact (h.once.cons _).trans (List.perm_append_singleton _ _).symm
  busy := free
  ended := h.ended
  taken_le := h.taken_le
  taken := h.taken
  answer := h.answer

/-- A running task may end, with the outcome of its own task. -/
theorem finish {i : ℕ} {a : α} (runs : i ∈ s.running) (task : tasks[i]? = some a) :
    Sound perform tasks workers
      { s with running := s.running.erase i, ended := (i, perform a) :: s.ended } where
  started_le := h.started_le
  once := List.perm_middle.trans <| ((List.perm_cons_erase runs).symm.append_right _).trans h.once
  busy := List.length_erase_le.trans h.busy
  ended := by
    intro j r hj
    rcases List.mem_cons.1 hj with hj | hj
    · obtain ⟨rfl, rfl⟩ := Prod.mk.inj hj
      exact ⟨a, task, rfl⟩
    · exact h.ended j r hj
  taken_le := h.taken_le
  taken := h.taken
  answer := h.answer

/-- The next outcome in turn may be taken. -/
theorem take {b : β} (next : (s.taken.length, .ok b) ∈ s.ended) :
    Sound perform tasks workers { s with taken := s.taken ++ [b] } where
  started_le := h.started_le
  once := h.once
  busy := h.busy
  ended := h.ended
  taken_le := by
    obtain ⟨hlt, -⟩ := h.getElem_of_mem_ended next
    rw [List.length_append]
    exact hlt
  taken := by
    obtain ⟨hlt, hb⟩ := h.getElem_of_mem_ended next
    rw [List.length_append, List.length_singleton, List.take_succ_eq_append_getElem hlt,
      List.mapM_append, h.taken]
    simp [hb, bind, Except.bind, pure, Except.pure]
  answer := h.answer

/-- **The first failure that is taken is the first one in the order of the tasks,** for what comes
before it has been taken as a success. -/
theorem fail {e : ε} (next : (s.taken.length, .error e) ∈ s.ended) :
    Sound perform tasks workers { s with answer := some (.error e) } where
  started_le := h.started_le
  once := h.once
  busy := h.busy
  ended := h.ended
  taken_le := h.taken_le
  taken := h.taken
  answer := by
    rintro r hr
    obtain ⟨hlt, he⟩ := h.getElem_of_mem_ended next
    rw [← Option.some.inj hr, eq_comm, Outcome.mapM_eq_error_iff]
    refine ⟨tasks.take s.taken.length, tasks[s.taken.length],
      tasks.drop (s.taken.length + 1), ?_, ?_, he⟩
    · rw [← List.drop_eq_getElem_cons hlt, List.take_append_drop]
    · exact Outcome.exists_mapM_eq_ok_iff.1 ⟨_, h.taken⟩

/-- Once all are taken, the answer is complete. -/
theorem complete (all : s.taken.length = tasks.length) :
    Sound perform tasks workers { s with answer := some (.ok s.taken) } where
  started_le := h.started_le
  once := h.once
  busy := h.busy
  ended := h.ended
  taken_le := h.taken_le
  taken := h.taken
  answer := by
    rintro r hr
    have htaken := h.taken
    rw [all, List.take_length] at htaken
    rw [← Option.some.inj hr, htaken]

/-- **No step brings a pool out of order.** There is one case for each kind of step. -/
theorem step (hstep : Step perform tasks workers s t) : Sound perform tasks workers t := by
  cases hstep with
  | begin more free => exact h.begin more free
  | finish i a runs task => exact h.finish runs task
  | take b _ next => exact h.take next
  | fail e _ next => exact h.fail next
  | complete _ all => exact h.complete all

/-- **A pool stays sound, whatever order its tasks end in.** This is `step`, by induction on the
run. -/
theorem steps (hsteps : Steps perform tasks workers s t) : Sound perform tasks workers t := by
  induction hsteps with
  | refl => exact h
  | tail _ last ih => exact ih.step last

end Sound

/-! ## Coming to an end -/

/-- How many steps are left at most: two for each task that is to be started, one for each that
runs, one for each result that is to be taken, and one for the answer. -/
def State.toDo (tasks : List α) (s : State ε β) : ℕ :=
  2 * (tasks.length - s.started) + s.running.length + (tasks.length - s.taken.length) +
    if s.answer.isNone then 1 else 0

/-- **Every step leaves less to do.** So every run comes to an end. -/
theorem toDo_lt_of_step (h : Sound perform tasks workers s)
    (hstep : Step perform tasks workers s t) :
    t.toDo tasks < s.toDo tasks := by
  cases hstep with
  | begin more free =>
    simp only [State.toDo, List.length_cons]
    omega
  | finish i a runs task =>
    have hpos := List.length_pos_of_mem runs
    simp only [State.toDo, List.length_erase_of_mem runs]
    omega
  | take b _ next =>
    obtain ⟨hlt, -⟩ := h.getElem_of_mem_ended next
    simp only [State.toDo, List.length_append, List.length_singleton]
    omega
  | fail e open_ next => simp [State.toDo, open_]
  | complete open_ all => simp [State.toDo, open_]

/-- The next result is there, or it can be worked for. -/
theorem exists_step (h : Sound perform tasks workers s) (hw : 0 < workers)
    (open_ : s.answer = none) :
    ∃ t, Step perform tasks workers s t := by
  rcases h.taken_le.eq_or_lt with all | hlt
  · exact ⟨_, .complete s open_ all⟩
  by_cases hended : ∃ r, (s.taken.length, r) ∈ s.ended
  · obtain ⟨_ | b, next⟩ := hended
    · exact ⟨_, .fail s _ open_ next⟩
    · exact ⟨_, .take s b open_ next⟩
  cases hrunning : s.running with
  | cons i is =>
    have runs : i ∈ s.running := by simp [hrunning]
    have hi : i < s.started := List.mem_range.1 (h.once.mem_iff.1 (List.mem_append_left _ runs))
    exact ⟨_, .finish s i _ runs (List.getElem?_eq_getElem (hi.trans_le h.started_le))⟩
  | nil =>
    -- All that was started has ended, but the next task has not, so it is still to be started.
    have hstarted : s.started ≤ s.taken.length := by
      by_contra hgt
      have hmem := h.once.mem_iff.2 (List.mem_range.2 (not_le.1 hgt))
      rw [hrunning, List.nil_append, List.mem_map] at hmem
      obtain ⟨⟨i, r⟩, hr, rfl⟩ := hmem
      exact hended ⟨r, hr⟩
    exact ⟨_, .begin s (hstarted.trans_lt hlt) (by simpa [hrunning] using hw)⟩

/-- A pool can go on from wherever it is to the answer of the tasks in turn. -/
theorem exists_answer (h : Sound perform tasks workers s) (hw : 0 < workers) :
    ∃ t, Steps perform tasks workers s t ∧ t.answer = some (tasks.mapM perform) := by
  induction hn : s.toDo tasks using Nat.strong_induction_on generalizing s with
  | _ n ih =>
    cases hanswer : s.answer with
    | some r => exact ⟨s, .refl s, by rw [hanswer, h.answer r hanswer]⟩
    | none =>
      obtain ⟨t, hstep⟩ := exists_step h hw hanswer
      obtain ⟨u, hsteps, hu⟩ := ih _ (hn ▸ toDo_lt_of_step h hstep) (h.step hstep) rfl
      exact ⟨u, (Steps.tail (.refl s) hstep).trans hsteps, hu⟩

/-- What is left to do and the steps that were made stay within what there was to do. -/
theorem toDo_add_le {run : ℕ → State ε β} (hstart : run 0 = .start) {k : ℕ}
    (hrun : ∀ i < k, Step perform tasks workers (run i) (run (i + 1))) :
    Sound perform tasks workers (run k) ∧ (run k).toDo tasks + k ≤ 3 * tasks.length + 1 := by
  induction k with
  | zero =>
    rw [hstart]
    refine ⟨sound_start, ?_⟩
    simp only [State.toDo, State.start, List.length_nil, Option.isNone_none, if_true]
    omega
  | succ k ih =>
    obtain ⟨hsound, hle⟩ := ih fun i hi => hrun i (by omega)
    have hstep := hrun k (by omega)
    have hlt := toDo_lt_of_step hsound hstep
    exact ⟨hsound.step hstep, by omega⟩

/-! ## The answer -/

/-- **A pool answers as one worker does,** whichever of its tasks end first: with the results in the
order of the tasks, or with the first failure in that order. It starts no task twice and none
without a free worker; where it cannot go on it has answered; and it makes three steps for each task
and one more at most. -/
theorem answer_inTurn (perform : α → Except ε β) (tasks : List α) {workers : ℕ} (hw : 0 < workers) :
    (∀ s, Steps perform tasks workers .start s →
      (∀ r, s.answer = some r → r = tasks.mapM perform) ∧
        ((¬ ∃ t, Step perform tasks workers s t) → s.answer = some (tasks.mapM perform)) ∧
        (∃ t, Steps perform tasks workers s t ∧ t.answer = some (tasks.mapM perform)) ∧
        s.running.length ≤ workers ∧
          (s.running ++ s.ended.map Prod.fst).Perm (List.range s.started)) ∧
      ∀ (run : ℕ → State ε β) (k : ℕ), run 0 = .start →
        (∀ i < k, Step perform tasks workers (run i) (run (i + 1))) → k ≤ 3 * tasks.length + 1 := by
  refine ⟨fun s hsteps => ?_, fun run k hstart hrun => ?_⟩
  · have h : Sound perform tasks workers s := sound_start.steps hsteps
    refine ⟨h.answer, fun hstuck => ?_, exists_answer h hw, h.busy, h.once⟩
    cases hanswer : s.answer with
    | none => exact absurd (exists_step h hw hanswer) hstuck
    | some r => rw [h.answer r hanswer]
  · have := (toDo_add_le hstart hrun).2
    omega

/-- **The number of workers makes no difference to the answer.** An answer exists, and it is the
only one. -/
theorem answers_iff {r : Except ε (List β)} :
    Answers perform tasks workers r ↔ r = tasks.mapM perform := by
  constructor
  · rintro (few | ⟨-, -, run, answer⟩)
    · rfl
    · exact (sound_start.steps run).answer r answer
  · rintro rfl
    by_cases few : workers ≤ 1 ∨ tasks.length ≤ 1
    · exact .inTurn few
    · rw [not_or, not_le, not_le] at few
      have hstart : Sound perform tasks workers .start := sound_start
      obtain ⟨t, run, answer⟩ := exists_answer hstart (Nat.zero_lt_of_lt few.1)
      exact .pooled few.1 few.2 run answer

/-! ## A later failure that comes first -/

/-- Ten times a number that is below two; another one is a failure. -/
def tenfold (n : ℕ) : Except ℕ ℕ := if n < 2 then .ok (10 * n) else .error n

/-- Of the tasks `1`, `2` and `3` the last one fails first, and still the failure of the second one
is the answer. -/
theorem answer_inTurn_tenfold :
    ∃ s, Steps tenfold [1, 2, 3] 3 .start s ∧
      s.ended = [(0, .ok 10), (1, .error 2), (2, .error 3)] ∧
      0 < 3 ∧ s.answer = some (.error 2) ∧ .error 2 = [1, 2, 3].mapM tenfold := by
  have steps : Steps tenfold [1, 2, 3] 3 .start
      ⟨3, [], [(0, .ok 10), (1, .error 2), (2, .error 3)], [10], some (.error 2)⟩ :=
    (((((((Steps.refl _).tail (.begin _ (by decide) (by decide))).tail
      (.begin _ (by decide) (by decide))).tail (.begin _ (by decide) (by decide))).tail
      (.finish _ 2 3 (by decide) rfl)).tail (.finish _ 1 2 (by decide) rfl)).tail
      (.finish _ 0 1 (by decide) rfl)).tail (.take _ 10 rfl (by decide)) |>.tail
      (.fail _ 2 rfl (by decide))
  exact ⟨_, steps, rfl, by decide, rfl,
    ((answer_inTurn tenfold [1, 2, 3] (by decide)).1 _ steps).1 _ rfl⟩

end MemberHarvest.Pool
