import BoundedQueue.Hook.Basic
import BoundedQueue.Log.Logbook
import BoundedQueue.Ring.Basic
import BoundedQueue.Semaphore.Basic

/-!
# The bounded queue

A queue has a ring of entries, two hooks that are shown every entry on its way in and on its way
out, a count of registered producers, and two semaphores.  A permit of `free` stands for a free slot
and one of `filled` for a filled one, so that a call which has to wait does so on a semaphore and
never under a lock.

The *buffer* lock guards the ring and the hooks, the *producers* lock guards the count.  A panic
under a lock poisons it, and from then on it refuses service.

What the queue does is kept in its `history`, and what it reports about itself in its `log`.
-/

set_option autoImplicit false

namespace BoundedQueue

/-- The two locks of a queue, apart from those of its semaphores. -/
inductive Lock where
  | buffer
  | producers
  deriving DecidableEq, Repr

namespace Lock

/-- The name under which a lock is reported. -/
def name : Lock → String
  | buffer => "buffer"
  | producers => "producers"

/-- The error of a call that a poisoned lock refuses. -/
def error (l : Lock) : Error := .poisoned l.name

/-- What is logged when a poisoned lock refuses service. -/
def complaint : Lock → Record
  | buffer => .bufferPoisoned
  | producers => .producersPoisoned

end Lock

/-- The two kinds of slots that a call can wait for. -/
inductive Side where
  | free
  | filled
  deriving DecidableEq, Repr

/-- What happens to a queue. -/
inductive Note (α : Type) where
  /-- A hook was shown an entry, and decided. -/
  | consulted (stage : Stage) (entry : Entry α) (verdict : Verdict)
  | pushed (entry : Entry α)
  | popped (entry : Entry α)
  /-- The marker popped last was not the last slot, or producers are left. -/
  | absorbed
  /-- The marker popped last was the last slot, and no producer is left. -/
  | concluded
  /-- No slot was free for the marker of a draining consumer. -/
  | leftOut
  /-- A producer was registered. -/
  | raised
  /-- A producer was deregistered. -/
  | lowered
  /-- The ring was cleared. -/
  | emptied
  /-- The whole queue was cleared. -/
  | renewed
  deriving DecidableEq, Repr

/-- A queue of bounded length for many producers and consumers. -/
structure Queue (α : Type) where
  capacity : Nat
  ring : Ring (Entry α)
  /-- The hook that is shown entries before they are pushed. -/
  onEnqueue : Option (Hook α)
  /-- The hook that is shown entries before they are popped. -/
  onDequeue : Option (Hook α)
  bufferPoisoned : Bool
  /-- The number of registered producers. -/
  producers : Nat
  producersPoisoned : Bool
  /-- The permits to fill a slot. -/
  free : Semaphore
  /-- The permits to empty a slot. -/
  filled : Semaphore
  log : Logbook
  /-- What happened so far, newest first. -/
  history : List (Note α)

namespace Queue

variable {α : Type}

/-- The queue with `capacity` free slots and no producer. -/
def fresh (capacity : Nat) (onEnqueue onDequeue : Option (Hook α)) (log : Logbook) : Queue α where
  capacity := capacity
  ring := .empty capacity
  onEnqueue := onEnqueue
  onDequeue := onDequeue
  bufferPoisoned := false
  producers := 0
  producersPoisoned := false
  free := .fresh "free_slots" capacity
  filled := .fresh "filled_slots" 0
  log := log
  history := []

/-! ## Reading -/

/-- The number of filled slots, markers included. -/
def len (q : Queue α) : Nat := q.ring.len

/-- No slot is filled. -/
def isEmpty (q : Queue α) : Bool := q.len == 0

/-- The semaphore that counts the slots of a kind. -/
def semaphore (q : Queue α) : Side → Semaphore
  | .free => q.free
  | .filled => q.filled

/-- The hook at a stage. -/
def hook? (q : Queue α) : Stage → Option (Hook α)
  | .enqueue => q.onEnqueue
  | .dequeue => q.onDequeue

/-- Whether a lock refuses service. -/
def isPoisoned (q : Queue α) : Lock → Bool
  | .buffer => q.bufferPoisoned
  | .producers => q.producersPoisoned

/-- The size, fill and producer count of a queue. -/
def outline (q : Queue α) : Outline where
  name := "PcQueue"
  fields :=
    [("capacity", toString q.capacity), ("len", toString q.len),
      ("producers", toString q.producers)]

/-! ## Changing one part -/

/-- Puts a semaphore in place. -/
def setSemaphore (q : Queue α) (side : Side) (s : Semaphore) : Queue α :=
  match side with
  | .free => { q with free := s }
  | .filled => { q with filled := s }

/-- Installs a hook in place of the one at a stage. -/
def setHook (q : Queue α) (stage : Stage) (hook : Hook α) : Queue α :=
  match stage with
  | .enqueue => { q with onEnqueue := some hook }
  | .dequeue => { q with onDequeue := some hook }

/-- Poisons a lock. -/
def poison (q : Queue α) : Lock → Queue α
  | .buffer => { q with bufferPoisoned := true }
  | .producers => { q with producersPoisoned := true }

/-- Adds to the history. -/
def note (q : Queue α) (n : Note α) : Queue α := { q with history := n :: q.history }

/-- Writes a record into the log. -/
def record (q : Queue α) (r : Record) : Queue α := { q with log := q.log.write r }

/-- Shows an entry to the hook at a stage.  Where there is none, every entry is accepted. -/
def consult (q : Queue α) (stage : Stage) (entry : Entry α) : Verdict × Queue α :=
  match q.hook? stage with
  | none => (.accept, q)
  | some hook =>
    let verdict := hook.judge entry
    (verdict, (q.setHook stage (hook.remember entry)).note (.consulted stage entry verdict))

/-! ## What was seen -/

/-- What the hooks were shown, in a history that is newest first. -/
def shownIn (history : List (Note α)) : List (Stage × Entry α) :=
  history.filterMap fun
    | .consulted stage entry _ => some (stage, entry)
    | _ => none

end Queue

end BoundedQueue
