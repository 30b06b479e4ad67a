import BoundedQueue.Log.Logbook
import BoundedQueue.Schedule.RunQueue
import BoundedQueue.Semaphore.Basic

/-!
# Tasks on one semaphore

Here the shared state is a single semaphore with a logbook, and the operations are requests to it.
`Semaphore.machine` cuts them into sections; `Semaphore.Case.run` runs a whole case.

A ledger of the changes to the number of permits is kept beside the semaphore: the count is what the
ledger adds up to.
-/

set_option autoImplicit false

namespace BoundedQueue

namespace Semaphore

/-- The requests to a semaphore. -/
inductive Operation where
  /-- Takes a permit, and waits for one if there is none. -/
  | acquire
  /-- Takes a permit if there is one. -/
  | tryAcquire
  | release
  /-- Sets the number of permits. -/
  | reset (permits : Nat)
  /-- Takes permits until there are none left, without waiting. -/
  | drain
  deriving DecidableEq, Repr

/-- The name of an operation. -/
def Operation.name : Operation → String
  | acquire => "acquire"
  | tryAcquire => "try_acquire"
  | release => "release"
  | reset _ => "reset"
  | drain => "drain"

/-- What a request is answered. -/
inductive Answer where
  | done
  | flag (b : Bool)
  | number (n : Nat)
  | failed (e : Error)
  | panicked (text : String)
  deriving DecidableEq, Repr

/-- Where a request can be interrupted. -/
inductive Place where
  /-- Waiting for a permit, or woken and about to ask again. -/
  | awaiting
  /-- After it has returned a permit and woken a waiter. -/
  | released
  deriving DecidableEq, Repr

/-- A change to the number of permits. -/
inductive Change where
  | reset (permits : Nat)
  | taken (permits : Nat)
  | returned
  deriving DecidableEq, Repr

/-- A semaphore with its logbook and its ledger. -/
structure Session where
  semaphore : Semaphore
  log : Logbook
  /-- The changes so far, newest first. -/
  ledger : List Change

namespace Session

/-- A semaphore that nothing was asked of yet. -/
def fresh (semaphore : Semaphore) (log : Logbook) : Session := ⟨semaphore, log, []⟩

/-- Enters a change and the semaphore after it. -/
def enter (s : Session) (change : Change) (after : Semaphore) : Session :=
  { s with semaphore := after, ledger := change :: s.ledger }

/-- How a section on a semaphore ends. -/
abbrev Step : Type := Session × Move Place Unit Answer

/-- A request to the poisoned semaphore is logged and fails, unless the logger panics. -/
def refused (s : Session) : Step :=
  let complaint := s.semaphore.complaint
  ({ s with log := s.log.write complaint },
    .finish (if s.log.springs complaint then .panicked Logbook.panicText
      else .failed s.semaphore.error))

/-- Asks for a permit, and waits if there is none. -/
def acquire (s : Session) : Step :=
  match s.semaphore.take with
  | .granted rest => (s.enter (.taken 1) rest, .finish .done)
  | .empty => (s, .wait () .awaiting)
  | .poisoned => s.refused

/-- Asks for a permit without waiting. -/
def tryAcquire (s : Session) : Step :=
  match s.semaphore.take with
  | .granted rest => (s.enter (.taken 1) rest, .finish (.flag true))
  | .empty => (s, .finish (.flag false))
  | .poisoned => s.refused

/-- Returns a permit and wakes a waiter. -/
def release (s : Session) : Step :=
  match s.semaphore.give with
  | .given after => (s.enter .returned after, .signal () .released)
  | .overflow after => ({ s with semaphore := after }, .finish (.panicked overflowText))
  | .poisoned => s.refused

/-- Sets the number of permits.  Nobody is woken. -/
def reset (s : Session) (permits : Nat) : Step :=
  match s.semaphore.reset? permits with
  | some after => (s.enter (.reset permits) after, .finish .done)
  | none => s.refused

/-- Takes all permits there are. -/
def drain (s : Session) : Step :=
  let sem := s.semaphore
  if sem.poisoned then s.refused
  else (s.enter (.taken sem.permits) { sem with permits := 0 }, .finish (.number sem.permits))

/-- The first section of a request. -/
def start (s : Session) : Operation → Step
  | .acquire => s.acquire
  | .tryAcquire => s.tryAcquire
  | .release => s.release
  | .reset permits => s.reset permits
  | .drain => s.drain

/-- The section at a place. -/
def resume (s : Session) : Place → Step
  | .awaiting => s.acquire
  | .released => (s, .finish .done)

end Session

/-- Requests to a semaphore, section by section. -/
def machine : Machine Session Operation Place Unit Answer where
  start _ op s := s.start op
  resume k s := s.resume k
  demand _ := 3
  effort _ := 1
  stock _ := 0

/-- A semaphore, and rounds of work for tasks on it. -/
structure Case where
  name : String
  permits : Nat
  wake : Wake
  /-- The level of detail of the log. -/
  detail : Option Level
  rounds : List (List (Assignment Operation))

/-- What is seen after a round: of the tasks, and of the log. -/
structure Report where
  round : Round Operation Answer
  log : List Record

namespace Case

/-- What is seen of `after`, when `before` was seen last. -/
def report (before after : RunQueue Session Operation Place Unit Answer) : Report where
  round := before.roundSince after
  log := newSince before.world.shared.log.records after.world.shared.log.records

/-- Carries out rounds of work, with a report after each. -/
def reports (s : RunQueue Session Operation Place Unit Answer) :
    List (List (Assignment Operation)) → List Report
  | [] => []
  | work :: rest =>
    let after := s.carryOut machine work
    report s after :: reports after rest

/-- The run queue in which a case begins. -/
def initial (c : Case) : RunQueue Session Operation Place Unit Answer :=
  .ofShared c.wake (.fresh (.fresh c.name c.permits) (.blank c.detail))

/-- Runs a case. -/
def run (c : Case) : List Report := reports c.initial c.rounds

end Case

end Semaphore

end BoundedQueue
