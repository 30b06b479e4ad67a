import BoundedQueue.Schedule.Task

/-!
# Worlds of tasks

A `Machine` says what operations do.  It cuts every operation into atomic sections: each changes
the shared state in one go and ends in a `Move`, after which other tasks may run.

A `World` is a shared state with tasks that work on it.  `World.advance` lets one task do one thing:
begin its next instruction, or carry out the next section of the operation in which it stands.  All
interleavings are sequences of such steps, whichever task takes each of them; a schedule is a way of
choosing.

The types are `σ` for the shared state, `ω` for operations, `κ` for places inside an operation, `ι`
for what tasks wait on, and `ρ` for results.
-/

set_option autoImplicit false

namespace BoundedQueue

/-- How a section of an operation ends. -/
inductive Move (κ ι ρ : Type) where
  /-- The operation goes on at `next`. -/
  | go (next : κ)
  /-- Nothing is to be had at `on`; the operation goes on at `retry` once it is woken. -/
  | wait (on : ι) (retry : κ)
  /-- A task that waits on `on` is to be woken; the operation goes on at `next`. -/
  | signal (on : ι) (next : κ)
  /-- The operation is over. -/
  | finish (result : ρ)

/-- What operations do, section by section, and how much work they may take. -/
structure Machine (σ ω κ ι ρ : Type) where
  /-- Carries out the first section.  The flag says that no other task is inside an operation. -/
  start : Bool → ω → σ → σ × Move κ ι ρ
  /-- Carries out the section at a place. -/
  resume : κ → σ → σ × Move κ ι ρ
  /-- A bound on the work that an operation needs. -/
  demand : ω → Nat
  /-- A bound on the work that is left at a place. -/
  effort : κ → Nat
  /-- Work that the shared state may add to what the operations need by themselves. -/
  stock : σ → Nat

/-- What is reported about a task. -/
inductive Occurrence (ω ρ : Type) where
  | completed (op : ω) (result : ρ)
  /-- The task gave way, and has its turn again. -/
  | yielded
  | unreadable (name : Option String) (fault : String)
  /-- The task was given work while it had some left. -/
  | busy

/-- A report and the task that it is about. -/
structure Event (ω ρ : Type) where
  task : Int
  what : Occurrence ω ρ

/-- What a task did with its turn. -/
inductive Turn (ι : Type) where
  /-- It had nothing to do. -/
  | idle
  /-- It did something and can go on. -/
  | ran
  | yielded
  | blocked (on : ι)
  /-- It asks for a task to be woken and can go on. -/
  | signalled (on : ι)
  deriving DecidableEq, Repr

/-- A shared state, the tasks that work on it, and what was reported, newest first. -/
structure World (σ ω κ ρ : Type) where
  shared : σ
  tasks : Roster ω κ
  events : List (Event ω ρ)

namespace World

variable {σ ω κ ι ρ : Type}

/-- A world without tasks. -/
def ofShared (shared : σ) : World σ ω κ ρ := ⟨shared, .empty, []⟩

/-- Reports something about a task. -/
def report (w : World σ ω κ ρ) (t : Int) (what : Occurrence ω ρ) : World σ ω κ ρ :=
  { w with events := ⟨t, what⟩ :: w.events }

/-- Sets where a task stands and what it has left to do. -/
def place (w : World σ ω κ ρ) (t : Int) (standing : Standing ω κ) (todo : List (Instruction ω)) :
    World σ ω κ ρ :=
  { w with tasks := w.tasks.set t ⟨standing, todo⟩ }

/-- Enters what a section of task `t`'s operation `op` has come to. -/
def settleMove (w : World σ ω κ ρ) (t : Int) (op : ω) (todo : List (Instruction ω)) :
    σ × Move κ ι ρ → World σ ω κ ρ × Turn ι
  | (shared, .go next) => ({ w with shared := shared }.place t (.inside op next) todo, .ran)
  | (shared, .wait on retry) =>
    ({ w with shared := shared }.place t (.inside op retry) todo, .blocked on)
  | (shared, .signal on next) =>
    ({ w with shared := shared }.place t (.inside op next) todo, .signalled on)
  | (shared, .finish result) =>
    (({ w with shared := shared }.place t .idle todo).report t (.completed op result), .ran)

/-- Lets task `t` do one thing. -/
def advance (m : Machine σ ω κ ι ρ) (w : World σ ω κ ρ) (t : Int) : World σ ω κ ρ × Turn ι :=
  let task := w.tasks.get t
  match task.standing, task.todo with
  | .inside op k, todo => w.settleMove t op todo (m.resume k w.shared)
  | .paused, todo => ((w.place t .idle todo).report t .yielded, .ran)
  | .idle, [] => (w, .idle)
  | .idle, .perform op :: todo =>
    w.settleMove t op todo (m.start (w.tasks.othersOutside t) op w.shared)
  | .idle, .yield :: todo => (w.place t .paused todo, .yielded)
  | .idle, .unreadable name fault :: todo =>
    ((w.place t .idle todo).report t (.unreadable name fault), .ran)

end World

end BoundedQueue
