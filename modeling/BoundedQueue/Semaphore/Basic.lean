import BoundedQueue.Log.Record

/-!
# Counting semaphores

A semaphore counts permits.  `Semaphore.take` asks for one and `Semaphore.give` returns one; each
is a single section under the semaphore's lock.  Whether a caller who finds no permit waits, and
who is woken by a returned one, is the business of the schedule.

A permit too many is an overflow: the count stays as it is, but the panic happens under the lock,
which is poisoned and refuses every later request.
-/

set_option autoImplicit false

namespace BoundedQueue

/-- A number of permits under a lock. -/
structure Semaphore where
  /-- The name under which the lock is reported. -/
  name : String
  permits : Nat
  /-- A panic happened under the lock. -/
  poisoned : Bool
  deriving DecidableEq, Repr

namespace Semaphore

/-- The largest number of permits, that of a 64-bit word. -/
def maxPermits : Nat := Nat.pow 2 64 - 1

/-- What a panic for a permit too many says. -/
def overflowText : String := "attempt to add with overflow"

/-- A sound semaphore with `permits` permits. -/
def fresh (name : String) (permits : Nat) : Semaphore := ⟨name, permits, false⟩

/-- The error of a request to a poisoned semaphore. -/
def error (s : Semaphore) : Error := .poisoned s.name

/-- What is logged about a request to a poisoned semaphore. -/
def complaint (s : Semaphore) : Record := .semaphorePoisoned s.name

/-- What comes of asking for a permit. -/
inductive Taking where
  /-- A permit was there; `rest` is the semaphore without it. -/
  | granted (rest : Semaphore)
  | empty
  | poisoned

/-- Asks for one permit. -/
def take (s : Semaphore) : Taking :=
  if s.poisoned then .poisoned
  else if s.permits = 0 then .empty
  else .granted { s with permits := s.permits - 1 }

/-- What comes of returning a permit. -/
inductive Giving where
  /-- The permit was counted. -/
  | given (after : Semaphore)
  /-- The count was at its largest; `after` has the same count and is poisoned. -/
  | overflow (after : Semaphore)
  | poisoned

/-- Returns one permit. -/
def give (s : Semaphore) : Giving :=
  if s.poisoned then .poisoned
  else if s.permits = maxPermits then .overflow { s with poisoned := true }
  else .given { s with permits := s.permits + 1 }

/-- Sets the number of permits, unless the semaphore is poisoned. -/
def reset? (s : Semaphore) (permits : Nat) : Option Semaphore :=
  if s.poisoned then none else some { s with permits := permits }

end Semaphore

end BoundedQueue
