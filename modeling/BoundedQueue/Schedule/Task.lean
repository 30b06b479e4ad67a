/-!
# Tasks

A task is a thread of control with a number.  It works through a list of instructions, and between
two of its turns it is idle, has paused, or stands inside an operation.

The type `ω` is that of operations, and `κ` says where inside an operation a task can stand.
-/

set_option autoImplicit false

namespace BoundedQueue

/-- Something that a task is told to do. -/
inductive Instruction (ω : Type) where
  | perform (op : ω)
  /-- Lets the other ready tasks run first. -/
  | yield
  /-- An instruction that could not be read: what it named, if anything, and what is at fault. -/
  | unreadable (name : Option String) (fault : String)

/-- Where a task stands between two turns. -/
inductive Standing (ω κ : Type) where
  | idle
  /-- Between giving way and going on. -/
  | paused
  | inside (op : ω) (place : κ)

/-- A thread of control. -/
structure Task (ω κ : Type) where
  standing : Standing ω κ
  /-- The instructions that it has not begun. -/
  todo : List (Instruction ω)

namespace Task

variable {ω κ : Type}

/-- A task without work. -/
def free : Task ω κ := ⟨.idle, []⟩

/-- Whether an operation of the task has begun and not ended. -/
def isInside (task : Task ω κ) : Bool :=
  match task.standing with
  | .inside _ _ => true
  | _ => false

/-- Whether the task has anything left to do. -/
def isUnfinished (task : Task ω κ) : Bool :=
  match task.standing, task.todo with
  | .idle, [] => false
  | _, _ => true

end Task

/-- The tasks that were ever given work, in ascending order of their numbers. -/
abbrev Roster (ω κ : Type) : Type := List (Int × Task ω κ)

namespace Roster

variable {ω κ : Type}

/-- No task yet. -/
def empty : Roster ω κ := []

/-- The task with a number; one that is not listed has no work. -/
def get : Roster ω κ → Int → Task ω κ
  | [], _ => .free
  | (u, task) :: rest, t => if u = t then task else get rest t

/-- Puts a task in the place that its number gives it. -/
def set : Roster ω κ → Int → Task ω κ → Roster ω κ
  | [], t, task => [(t, task)]
  | (u, old) :: rest, t, task =>
    if t < u then (t, task) :: (u, old) :: rest
    else if t = u then (t, task) :: rest
    else (u, old) :: set rest t task

/-- Whether no task but `t` stands inside an operation. -/
def othersOutside (r : Roster ω κ) (t : Int) : Bool :=
  r.all fun entry => entry.1 == t || !entry.2.isInside

/-- The numbers of the tasks that have something left to do. -/
def unfinished (r : Roster ω κ) : List Int :=
  (r.filter fun entry => entry.2.isUnfinished).map Prod.fst

end Roster

end BoundedQueue
