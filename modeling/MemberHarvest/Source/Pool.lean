/-!
# Source/Pool — reading with several workers

Tasks are started in their order, and at most as many run at a time as there are workers; they end
in any order. Their results are taken in the order of the tasks, and the first failure that is taken
is the answer. A run of the pool is a sequence of steps (`Steps`) that ends with an answer.
-/

namespace MemberHarvest.Pool

variable {α β ε : Type}

/-- How far a pool has come: how many tasks have been started, which run, what has come of those
that ended, what has been taken, and the answer. -/
structure State (ε β : Type) where
  started : Nat
  running : List Nat
  ended : List (Nat × Except ε β)
  taken : List β
  answer : Option (Except ε (List β))

/-- A pool before anything has been started. -/
def State.start : State ε β := ⟨0, [], [], [], none⟩

/-- The next thing that may happen in a pool with tasks to perform. -/
inductive Step (perform : α → Except ε β) (tasks : List α) (workers : Nat) :
    State ε β → State ε β → Prop
  /-- A free worker starts the next task. -/
  | begin (s : State ε β) (more : s.started < tasks.length) (free : s.running.length < workers) :
    Step perform tasks workers s { s with started := s.started + 1, running :=
      s.started :: s.running }
  /-- A task ends. -/
  | finish (s : State ε β) (i : Nat) (a : α) (runs : i ∈ s.running) (task : tasks[i]? = some a) :
    Step perform tasks workers s
      { s with running := s.running.erase i, ended := (i, perform a) :: s.ended }
  /-- The next result is taken. -/
  | take (s : State ε β) (b : β) (open_ : s.answer = none)
    (next : (s.taken.length, .ok b) ∈ s.ended) :
    Step perform tasks workers s { s with taken := s.taken ++ [b] }
  /-- The next result is a failure. -/
  | fail (s : State ε β) (e : ε) (open_ : s.answer = none)
      (next : (s.taken.length, .error e) ∈ s.ended) :
    Step perform tasks workers s { s with answer := some (.error e) }
  /-- All results have been taken. -/
  | complete (s : State ε β) (open_ : s.answer = none) (all : s.taken.length = tasks.length) :
    Step perform tasks workers s { s with answer := some (.ok s.taken) }

/-- Any number of steps. -/
inductive Steps (perform : α → Except ε β) (tasks : List α) (workers : Nat) :
    State ε β → State ε β → Prop
  | refl (s : State ε β) : Steps perform tasks workers s s
  | tail {s t u : State ε β} (before : Steps perform tasks workers s t)
      (last : Step perform tasks workers t u) : Steps perform tasks workers s u

/-- What workers may answer: a single one, or a single task, needs no pool, and the tasks are
performed one after another. -/
inductive Answers (perform : α → Except ε β) (tasks : List α) (workers : Nat) :
    Except ε (List β) → Prop
  | inTurn (few : workers ≤ 1 ∨ tasks.length ≤ 1) :
    Answers perform tasks workers (tasks.mapM perform)
  | pooled (several : 1 < workers) (many : 1 < tasks.length) {s : State ε β} {r : Except ε (List β)}
      (run : Steps perform tasks workers .start s) (answer : s.answer = some r) :
    Answers perform tasks workers r

end MemberHarvest.Pool
