import BoundedQueue.Schedule.RunQueue
import BoundedQueue.Session.Machine

/-!
# Cases

A case builds a queue and hands out work for it in rounds.  `Case.run` gives a report after each
round, or the error with which the queue was refused.
-/

set_option autoImplicit false

namespace BoundedQueue

/-- How to build a queue, and rounds of work for tasks on it. -/
structure Case (α : Type) where
  capacity : Nat
  /-- The calls on the builder, if the queue is built with one. -/
  build : Option (List (Builder.Call α))
  wake : Wake
  /-- The level of detail of the log. -/
  detail : Option Level
  rounds : List (List (Assignment (Operation α)))

/-- What is seen after a round: of the tasks, of the queue, and of what was recorded. -/
structure Report (α : Type) where
  round : Round (Operation α) (Answer α)
  log : List Record
  /-- The entries that hooks were shown. -/
  shown : List (Stage × Entry α)
  len : Nat
  producers : Nat

/-- What comes of a case. -/
structure CaseReport (α : Type) where
  /-- The outlines of the builder, if there was one: first, and after each call. -/
  builder : Option (List String)
  /-- The error and the log of a queue that was refused, or the reports of the rounds. -/
  result : Except (Error × List Record) (List (Report α))

namespace Case

variable {α : Type}

/-- A run queue for tasks on a queue. -/
abbrev Tasks (α : Type) : Type := RunQueue (Session α) (Operation α) (Job α) Side (Answer α)

/-- What is seen of `after`, when `before` was seen last. -/
def report (before after : Tasks α) : Report α :=
  let was := before.world.shared.queue
  let is := after.world.shared.queue
  { round := before.roundSince after
    log := newSince was.log.records is.log.records
    shown := Queue.shownIn (newSince was.history is.history)
    len := is.len
    producers := is.producers }

/-- Carries out rounds of work, with a report after each. -/
def reports (s : Tasks α) : List (List (Assignment (Operation α))) → List (Report α)
  | [] => []
  | work :: rest =>
    let after := s.carryOut Session.machine work
    report s after :: reports after rest

/-- The run queue in which tasks begin to work on a queue. -/
def initial (c : Case α) (queue : Queue α) : Tasks α := .ofShared c.wake (.ofQueue queue)

/-- The builder of a case, and its outlines. -/
def builder (c : Case α) : Builder α × List String :=
  let b := Builder.ofCapacity c.capacity
  let (last, texts) := b.applyAll (c.build.getD [])
  (last, b.outline.inline :: texts)

/-- Runs a case. -/
def run (c : Case α) : CaseReport α where
  builder := c.build.map fun _ => c.builder.2
  result :=
    match c.builder.1.build (.blank c.detail) with
    | .error (e, log) => .error (e, log.records.reverse)
    | .ok queue => .ok (reports (c.initial queue) c.rounds)

end Case

end BoundedQueue
