import BoundedQueue.Queue.Builder
import BoundedQueue.Session.Handle
import BoundedQueue.Session.Operation

/-!
# Operations in terms of calls

Most operations are one call on the queue, some are none, and an iteration is one call after
another.  A `Job` is an operation in the middle: the `Purpose` of the current call and the phase of
it.  `Session.conclude` says what follows from the outcome of a call, given its purpose.

A handle is busy while a job sends through it or reads from it, and keeps its name.  Finishing or
dropping a guard gives the handle up as soon as that begins: its name is free again, whatever comes
of it and however long it takes.  An iterator is over after it has given its end or a failure, but
not after a panic.
-/

set_option autoImplicit false

namespace BoundedQueue

/-- What a call on the queue is made for. -/
inductive Purpose (α : Type) where
  | plain
  /-- An attempt to enqueue without waiting. -/
  | attempt
  | producer (handle : String)
  | send (handle : String)
  /-- The end of a guard that was dropped. -/
  | drop
  | next (handle : String)
  /-- An iteration that has `got` some items, newest first, and wants `left` more, or all. -/
  | gather (left : Option Nat) (got : List α)
  deriving DecidableEq, Repr

/-- Where a task stands inside an operation. -/
structure Job (α : Type) where
  purpose : Purpose α
  phase : Phase α
  deriving DecidableEq, Repr

/-- A queue and the handles on it. -/
structure Session (α : Type) where
  queue : Queue α
  handles : Handles

namespace Session

variable {α : Type}

/-- How a section of an operation ends. -/
abbrev Step (α : Type) : Type := Session α × Move (Job α) Side (Answer α)

/-- A queue without handles. -/
def ofQueue (queue : Queue α) : Session α := ⟨queue, .empty⟩

/-- The operation is over. -/
def answer (s : Session α) (a : Answer α) : Step α := (s, .finish a)

/-- Puts a handle under a name. -/
def setHandle (s : Session α) (name : String) (kind : HandleKind) (busy : Bool) : Session α :=
  { s with handles := s.handles.set name ⟨kind, busy⟩ }

/-- Takes the handle of a name away. -/
def dropHandle (s : Session α) (name : String) : Session α :=
  { s with handles := s.handles.erase name }

/-! ## After a call -/

/-- The answer that an outcome is by itself. -/
def plainAnswer : Outcome α → Answer α
  | .done => .done
  | .item a => .item a
  | .drained => .drained
  | .full a => .refused (.full a)
  | .failed e => .failed e
  | .panicked text => .panicked text

/-- The answer of an attempt, where a failure is a refusal. -/
def attemptAnswer : Outcome α → Answer α
  | .failed e => .refused (.failed e)
  | o => plainAnswer o

/-- Ends the use of an iterator. -/
def concludeNext (s : Session α) (handle : String) : Outcome α → Step α
  | .item a => (s.setHandle handle (.iterator false) false).answer (.next (some (.ok a)))
  | .failed e => (s.setHandle handle (.iterator true) false).answer (.next (some (.error e)))
  | .panicked text => (s.setHandle handle (.iterator false) false).answer (.panicked text)
  | _ => (s.setHandle handle (.iterator true) false).answer (.next none)

/-- Ends a guard that was dropped.  It can no longer report a failure, so that is only logged. -/
def concludeDrop (s : Session α) : Outcome α → Step α
  | .failed e =>
    let r := Record.dropFailed e
    { s with queue := s.queue.record r }.answer
      (if s.queue.log.springs r then .panicked Logbook.panicText else .done)
  | o => s.answer (plainAnswer o)

/-- Goes on with an iteration, or ends it. -/
def concludeGather (s : Session α) (left : Option Nat) (got : List α) : Outcome α → Step α
  | .item a =>
    let got := a :: got
    match left with
    | none => (s, .go ⟨.gather none got, .askFilled⟩)
    | some n =>
      if n ≤ 1 then s.answer (.listed got.reverse none)
      else (s, .go ⟨.gather (some (n - 1)) got, .askFilled⟩)
  | .failed e => s.answer (.listed got.reverse (some e))
  | .panicked text => s.answer (.panicked text)
  | _ => s.answer (.listed got.reverse none)

/-- What follows from the outcome of a call that was made for a purpose. -/
def conclude (s : Session α) (o : Outcome α) : Purpose α → Step α
  | .plain => s.answer (plainAnswer o)
  | .attempt => s.answer (attemptAnswer o)
  | .producer handle =>
    match o with
    | .done => (s.setHandle handle .guard false).answer .done
    | o => s.answer (plainAnswer o)
  | .send handle => (s.setHandle handle .guard false).answer (plainAnswer o)
  | .drop => s.concludeDrop o
  | .next handle => s.concludeNext handle o
  | .gather left got => s.concludeGather left got o

/-- Enters a section of a call that was made for a purpose. -/
def enter (s : Session α) (purpose : Purpose α) : Section α → Step α
  | (queue, .go phase) => ({ s with queue := queue }, .go ⟨purpose, phase⟩)
  | (queue, .wait side phase) => ({ s with queue := queue }, .wait side ⟨purpose, phase⟩)
  | (queue, .signal side phase) => ({ s with queue := queue }, .signal side ⟨purpose, phase⟩)
  | (queue, .finish o) => { s with queue := queue }.conclude o purpose

/-! ## Before a call -/

/-- Makes a call for a purpose. -/
def call (s : Session α) (purpose : Purpose α) (c : Call α) : Step α :=
  s.enter purpose (s.queue.begin c)

/-- Goes on with a producer guard that nobody is using. -/
def withGuard (s : Session α) (handle : String) (next : Session α → Step α) : Step α :=
  match s.handles.get? handle with
  | some ⟨.guard, false⟩ => next s
  | _ => s.answer .noHandle

/-- Asks an iterator for an item, unless it is over. -/
def advanceIterator (s : Session α) (handle : String) : Step α :=
  match s.handles.get? handle with
  | some ⟨.iterator true, false⟩ => s.answer (.next none)
  | some ⟨.iterator false, false⟩ =>
    (s.setHandle handle (.iterator false) true).call (.next handle) .dequeue
  | _ => s.answer .noHandle

/-- Does away with a handle that nobody is using, at once. -/
def discard (s : Session α) (handle : String) : Step α :=
  match s.handles.get? handle with
  | some ⟨.iterator _, false⟩ => (s.dropHandle handle).answer .done
  | some ⟨.guard, false⟩ => (s.dropHandle handle).call .drop .deregister
  | _ => s.answer .noHandle

/-- Goes on if no handle has a name. -/
def withNewName (s : Session α) (handle : String) (next : Session α → Step α) : Step α :=
  if (s.handles.get? handle).isSome then s.answer .noHandle else next s

/-- What a guard shows of itself, which is that it is not finished. -/
def guardOutline : Outline := ⟨"Producer", [("finished", "false")]⟩

/-- The first section of an operation.  `alone` says that no other task is inside an operation. -/
def start (s : Session α) (alone : Bool) : Operation α → Step α
  | .enqueue a => s.call .plain (.enqueue a)
  | .tryEnqueue a => s.call .attempt (.tryEnqueue a)
  | .dequeue => s.call .plain .dequeue
  | .take n =>
    if n = 0 then s.answer (.listed [] none) else s.call (.gather (some n) []) .dequeue
  | .collect => s.call (.gather none []) .dequeue
  | .register => s.call .plain .register
  | .deregister => s.call .plain .deregister
  | .install stage hook => s.call .plain (.install stage hook)
  | .capacity => s.answer (.number s.queue.capacity)
  | .isEmpty => s.answer (.flag s.queue.isEmpty)
  | .debug => s.answer (.text s.queue.outline.inline)
  | .pretty => s.answer (.text s.queue.outline.block)
  | .clear => if alone && s.handles.isEmpty then s.call .plain .clear else s.answer .inUse
  | .producer handle => s.withNewName handle fun s => s.call (.producer handle) .register
  | .iter handle =>
    s.withNewName handle fun s => (s.setHandle handle (.iterator false) false).answer .done
  | .send handle a =>
    s.withGuard handle fun s => (s.setHandle handle .guard true).call (.send handle) (.enqueue a)
  | .finish handle =>
    s.withGuard handle fun s => (s.dropHandle handle).call .plain .deregister
  | .describe handle =>
    s.withGuard handle fun s => s.answer (.texts [guardOutline.inline, guardOutline.block])
  | .next handle => s.advanceIterator handle
  | .drop handle => s.discard handle
  | .trap opening =>
    { s with queue := { s.queue with log := s.queue.log.setTrap opening } }.answer .done

/-- The next section of a job. -/
def resume (s : Session α) (job : Job α) : Step α :=
  s.enter job.purpose (s.queue.resume job.phase)

/-- Operations on a queue, section by section. -/
def machine : Machine (Session α) (Operation α) (Job α) Side (Answer α) where
  start alone op s := s.start alone op
  resume job s := s.resume job
  demand _ := Queue.callWork
  effort job := Queue.phaseWork job.phase
  stock s := Queue.slotWork * s.queue.len

end Session

end BoundedQueue
