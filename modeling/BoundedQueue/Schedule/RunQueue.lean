import BoundedQueue.Schedule.World

/-!
# The run queue

The run queue is a deterministic schedule for a world.  The tasks that can run stand in a line, and
the first one runs until it finishes its list, blocks or gives way.  A task that blocks joins the
waiters; a task that signals takes the first waiter on the same thing out and hands it a place in
the line, which `Wake` determines.

* `RunQueue.tick` is one turn of the first task.
* `RunQueue.settle` lets turn follow turn until nobody can run.  The number of turns is bounded by
  `RunQueue.potential`, which every turn lowers.
* `RunQueue.carryOut` hands out work and settles.
-/

set_option autoImplicit false

namespace BoundedQueue

/-- When a task that was woken gets its turn. -/
inductive Wake where
  /-- Behind all tasks that can run; the task that woke it goes on. -/
  | later
  /-- At once; the task that woke it comes next. -/
  | now
  deriving DecidableEq, Repr

/-- The line after `t`, at its head, has woken `u`; the others in line are `rest`. -/
def Wake.line (wake : Wake) (t u : Int) (rest : List Int) : List Int :=
  match wake with
  | later => t :: rest ++ [u]
  | now => u :: t :: rest

/-- A world with its tasks in line. -/
structure RunQueue (σ ω κ ι ρ : Type) where
  world : World σ ω κ ρ
  /-- The tasks that can run, the running one first. -/
  ready : List Int
  /-- The tasks that wait, and on what, longest waiting first. -/
  waiting : List (ι × Int)
  wake : Wake

/-- A list of instructions for a task. -/
structure Assignment (ω : Type) where
  task : Int
  todo : List (Instruction ω)

/-- What is seen of a world after a round of work. -/
structure Round (ω ρ : Type) where
  /-- What was reported in this round, oldest first. -/
  events : List (Event ω ρ)
  /-- The tasks with unfinished work, in ascending order. -/
  blocked : List Int

/-- The part of a newest-first record that was added since it was `before`, oldest first. -/
def newSince {β : Type} (before after : List β) : List β :=
  (after.take (after.length - before.length)).reverse

namespace RunQueue

variable {σ ω κ ι ρ : Type}

/-- Nobody in line. -/
def ofShared (wake : Wake) (shared : σ) : RunQueue σ ω κ ι ρ := ⟨.ofShared shared, [], [], wake⟩

/-- Gives a list of instructions to a task, unless it has some left.  A task that is given none
does not stand in line. -/
def handOut (s : RunQueue σ ω κ ι ρ) (a : Assignment ω) : RunQueue σ ω κ ι ρ :=
  if (s.world.tasks.get a.task).isUnfinished then
    { s with world := s.world.report a.task .busy }
  else if a.todo.isEmpty then s
  else
    { s with world := s.world.place a.task .idle a.todo, ready := s.ready ++ [a.task] }

/-- Takes the first waiter on `on` out of a list of waiters. -/
def takeWaiter [DecidableEq ι] (on : ι) : List (ι × Int) → Option (Int × List (ι × Int))
  | [] => none
  | (i, u) :: rest =>
    if i = on then some (u, rest)
    else (takeWaiter on rest).map fun (v, others) => (v, (i, u) :: others)

/-- Changes the line after a turn of its head `t`; the others in line are `rest`. -/
def requeue [DecidableEq ι] (s : RunQueue σ ω κ ι ρ) (t : Int) (rest : List Int) :
    Turn ι → RunQueue σ ω κ ι ρ
  | .idle => { s with ready := rest }
  | .ran => s
  | .yielded => { s with ready := rest ++ [t] }
  | .blocked on => { s with ready := rest, waiting := s.waiting ++ [(on, t)] }
  | .signalled on =>
    match takeWaiter on s.waiting with
    | none => s
    | some (u, waiting) => { s with ready := s.wake.line t u rest, waiting := waiting }

/-- One turn of the first task in line. -/
def tick [DecidableEq ι] (m : Machine σ ω κ ι ρ) (s : RunQueue σ ω κ ι ρ) : RunQueue σ ω κ ι ρ :=
  match s.ready with
  | [] => s
  | t :: rest =>
    let (world, turn) := s.world.advance m t
    { s with world := world }.requeue t rest turn

/-- At most `n` turns. -/
def run [DecidableEq ι] (m : Machine σ ω κ ι ρ) :
    Nat → RunQueue σ ω κ ι ρ → RunQueue σ ω κ ι ρ
  | 0, s => s
  | n + 1, s => if s.ready.isEmpty then s else run m n (s.tick m)

/-- A bound on the turns that an instruction takes. -/
def instructionEffort (m : Machine σ ω κ ι ρ) : Instruction ω → Nat
  | .perform op => m.demand op
  | .yield => 2
  | .unreadable _ _ => 1

/-- A bound on the turns that a task takes by itself. -/
def taskEffort (m : Machine σ ω κ ι ρ) (task : Task ω κ) : Nat :=
  (match task.standing with
    | .idle => 0
    | .paused => 1
    | .inside _ k => m.effort k) +
  (task.todo.map (instructionEffort m)).foldr (· + ·) 0

/-- A bound on the turns until nobody can run. -/
def potential (m : Machine σ ω κ ι ρ) (s : RunQueue σ ω κ ι ρ) : Nat :=
  m.stock s.world.shared +
    (s.world.tasks.map fun entry => taskEffort m entry.2).foldr (· + ·) 0 + s.ready.length

/-- Turn after turn until nobody can run. -/
def settle [DecidableEq ι] (m : Machine σ ω κ ι ρ) (s : RunQueue σ ω κ ι ρ) :
    RunQueue σ ω κ ι ρ :=
  run m (potential m s) s

/-- Hands out work and lets everything run. -/
def carryOut [DecidableEq ι] (m : Machine σ ω κ ι ρ) (s : RunQueue σ ω κ ι ρ)
    (work : List (Assignment ω)) : RunQueue σ ω κ ι ρ :=
  (work.foldl handOut s).settle m

/-- What is seen of `after`, when `before` was seen last. -/
def roundSince (before after : RunQueue σ ω κ ι ρ) : Round ω ρ where
  events := newSince before.world.events after.world.events
  blocked := after.world.tasks.unfinished

end RunQueue

end BoundedQueue
