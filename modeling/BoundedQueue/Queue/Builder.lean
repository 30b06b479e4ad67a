import BoundedQueue.Queue.Basic

/-!
# Building queues

A builder collects the capacity and the hooks of a queue before there is one.  A queue needs at
least one slot; a builder without any is refused when it is asked to build.
-/

set_option autoImplicit false

namespace BoundedQueue

/-- What a queue is going to have. -/
structure Builder (α : Type) where
  capacity : Nat
  onEnqueue : Option (Hook α)
  onDequeue : Option (Hook α)

namespace Builder

variable {α : Type}

/-- A builder for a queue with `capacity` slots and no hooks. -/
def ofCapacity (capacity : Nat) : Builder α := ⟨capacity, none, none⟩

/-- The builder with a hook at a stage. -/
def setHook (b : Builder α) (stage : Stage) (hook : Hook α) : Builder α :=
  match stage with
  | .enqueue => { b with onEnqueue := some hook }
  | .dequeue => { b with onDequeue := some hook }

/-- The capacity of a builder, and which hooks it has. -/
def outline (b : Builder α) : Outline where
  name := "Builder"
  fields :=
    [("capacity", toString b.capacity), ("on_enqueue", toString b.onEnqueue.isSome),
      ("on_dequeue", toString b.onDequeue.isSome)]

/-- Builds the queue, with a logbook that goes on from `log`.  A refusal comes with the logbook in
which it is recorded. -/
def build (b : Builder α) (log : Logbook) : Except (Error × Logbook) (Queue α) :=
  if b.capacity = 0 then .error (.zeroCapacity, log.write .zeroCapacity)
  else .ok (.fresh b.capacity b.onEnqueue b.onDequeue log)

/-- A call on a builder. -/
inductive Call (α : Type) where
  /-- Replaces the capacity; a number that is no capacity changes nothing. -/
  | capacity (n? : Option Nat)
  | hook (stage : Stage) (hook : Hook α)
  /-- Changes nothing, and asks for the outline in block form. -/
  | pretty

/-- The builder after a call. -/
def apply (b : Builder α) : Call α → Builder α
  | .capacity n? => { b with capacity := n?.getD b.capacity }
  | .hook stage hook => b.setHook stage hook
  | .pretty => b

/-- The outline that a call asks for. -/
def textAfter (b : Builder α) : Call α → String
  | .pretty => b.outline.block
  | _ => b.outline.inline

/-- Makes a list of calls: the builder after them, and its outline after each. -/
def applyAll (b : Builder α) : List (Call α) → Builder α × List String
  | [] => (b, [])
  | c :: cs =>
    let b' := b.apply c
    let (last, texts) := b'.applyAll cs
    (last, b'.textAfter c :: texts)

end Builder

end BoundedQueue
