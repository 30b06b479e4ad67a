import BoundedQueue.Session.Machine

/-!
# How operations begin

An operation begins with a call on the queue, or is over at once.  Which of the two it is depends on
the handles that there are, and for a clearing on whether anybody else is inside an operation.

## What is here

* `Session.opening` is the call with which an operation begins, if it begins with one, and
  `Operation.claim` what the operation does to the handles before that call: it marks a handle as
  busy, or gives it up.
* `Session.Opens` lists the operations that begin with a call, with what each of them requires of
  the session, and `Session.Skips` those that do without, with all that becomes of the session.
* `Session.begins` says that there are no others, and that `Session.start` does what these lists
  say.  Whatever is proved about the beginning of operations is proved by cases of one of the two
  lists, and never by looking into `Session.start` again.
-/

set_option autoImplicit false

namespace BoundedQueue

variable {α : Type}

namespace Operation

/-- What an operation does to the handles before its call. -/
def claim (handles : Handles) : Operation α → Handles
  | .send handle _ => handles.set handle ⟨.guard, true⟩
  | .next handle => handles.set handle ⟨.iterator false, true⟩
  | .finish handle | .drop handle => handles.erase handle
  | _ => handles

/-- The handle that an operation names. -/
def handle? : Operation α → Option String
  | producer name | iter name | send name _ | finish name | describe name | next name | drop name =>
    some name
  | _ => none

end Operation

namespace Session

/-- The call with which an operation begins, and what it is made for; some operations do without.
`alone` says that no other task is inside an operation. -/
def opening (s : Session α) (alone : Bool) : Operation α → Option (Purpose α × Call α)
  | .enqueue a => some (.plain, .enqueue a)
  | .tryEnqueue a => some (.attempt, .tryEnqueue a)
  | .dequeue => some (.plain, .dequeue)
  | .take n => if n = 0 then none else some (.gather (some n) [], .dequeue)
  | .collect => some (.gather none [], .dequeue)
  | .register => some (.plain, .register)
  | .deregister => some (.plain, .deregister)
  | .install stage hook => some (.plain, .install stage hook)
  | .clear => if alone && s.handles.isEmpty then some (.plain, .clear) else none
  | .producer handle =>
    if (s.handles.get? handle).isSome then none else some (.producer handle, .register)
  | .send handle a =>
    match s.handles.get? handle with
    | some ⟨.guard, false⟩ => some (.send handle, .enqueue a)
    | _ => none
  | .finish handle =>
    match s.handles.get? handle with
    | some ⟨.guard, false⟩ => some (.plain, .deregister)
    | _ => none
  | .next handle =>
    match s.handles.get? handle with
    | some ⟨.iterator false, false⟩ => some (.next handle, .dequeue)
    | _ => none
  | .drop handle =>
    match s.handles.get? handle with
    | some ⟨.guard, false⟩ => some (.drop, .deregister)
    | _ => none
  | .capacity | .isEmpty | .debug | .pretty | .iter _ | .describe _ | .trap _ => none

/-! ## The two ways to begin -/

/-- The operations that begin with a call, what the call is made for, and which it is. -/
inductive Opens (s : Session α) (alone : Bool) : Operation α → Purpose α → Call α → Prop where
  | enqueue (a : α) : Opens s alone (.enqueue a) .plain (.enqueue a)
  | tryEnqueue (a : α) : Opens s alone (.tryEnqueue a) .attempt (.tryEnqueue a)
  | dequeue : Opens s alone .dequeue .plain .dequeue
  | take {n : Nat} (h : n ≠ 0) : Opens s alone (.take n) (.gather (some n) []) .dequeue
  | collect : Opens s alone .collect (.gather none []) .dequeue
  | register : Opens s alone .register .plain .register
  | deregister : Opens s alone .deregister .plain .deregister
  | install (stage : Stage) (hook : Hook α) :
      Opens s alone (.install stage hook) .plain (.install stage hook)
  /-- Nobody else is inside an operation, and there are no handles. -/
  | clear (halone : alone = true) (hnone : s.handles = []) : Opens s alone .clear .plain .clear
  | producer {name : String} (h : s.handles.get? name = none) :
      Opens s alone (.producer name) (.producer name) .register
  | send {name : String} (a : α) (h : s.handles.get? name = some ⟨.guard, false⟩) :
      Opens s alone (.send name a) (.send name) (.enqueue a)
  | finish {name : String} (h : s.handles.get? name = some ⟨.guard, false⟩) :
      Opens s alone (.finish name) .plain .deregister
  | next {name : String} (h : s.handles.get? name = some ⟨.iterator false, false⟩) :
      Opens s alone (.next name) (.next name) .dequeue
  | drop {name : String} (h : s.handles.get? name = some ⟨.guard, false⟩) :
      Opens s alone (.drop name) .drop .deregister

/-- The operations that make no call, the session that they leave, and what they answer. -/
inductive Skips (s : Session α) : Operation α → Session α → Answer α → Prop where
  | nothingWanted : Skips s (.take 0) s (.listed [] none)
  | inUse : Skips s .clear s .inUse
  | noHandle {op : Operation α} {name : String} (h : op.handle? = some name) :
      Skips s op s .noHandle
  /-- The iterator has come to its end before. -/
  | ended {name : String} (h : s.handles.get? name = some ⟨.iterator true, false⟩) :
      Skips s (.next name) s (.next none)
  | iter {name : String} (h : s.handles.get? name = none) :
      Skips s (.iter name) (s.setHandle name (.iterator false) false) .done
  | drop {name : String} {ended : Bool}
      (h : s.handles.get? name = some ⟨.iterator ended, false⟩) :
      Skips s (.drop name) (s.dropHandle name) .done
  | trap (opening : String) :
      Skips s (.trap opening)
        { s with queue := { s.queue with log := s.queue.log.setTrap opening } } .done
  | capacity : Skips s .capacity s (.number s.queue.capacity)
  | isEmpty : Skips s .isEmpty s (.flag s.queue.isEmpty)
  | debug : Skips s .debug s (.text s.queue.outline.inline)
  | pretty : Skips s .pretty s (.text s.queue.outline.block)
  | describe (name : String) :
      Skips s (.describe name) s (.texts [guardOutline.inline, guardOutline.block])

/-- The first section of an operation, beside the call with which the operation begins. -/
inductive Begins (s : Session α) (alone : Bool) (op : Operation α) :
    Option (Purpose α × Call α) → Step α → Prop where
  | opens {purpose : Purpose α} {c : Call α} (h : s.Opens alone op purpose c) :
      Begins s alone op (some (purpose, c)) (call ⟨s.queue, op.claim s.handles⟩ purpose c)
  | skips {s' : Session α} {a : Answer α} (h : s.Skips op s' a) :
      Begins s alone op none (s'.answer a)

/-- **An operation begins with a call, or is over at once.** -/
theorem begins (s : Session α) (alone : Bool) (op : Operation α) :
    s.Begins alone op (s.opening alone op) (s.start alone op) := by
  cases op with
  | enqueue a => exact .opens (.enqueue a)
  | tryEnqueue a => exact .opens (.tryEnqueue a)
  | dequeue => exact .opens .dequeue
  | collect => exact .opens .collect
  | register => exact .opens .register
  | deregister => exact .opens .deregister
  | install stage hook => exact .opens (.install stage hook)
  | take n =>
    simp only [opening, start]
    split
    · next hn => subst hn; exact .skips .nothingWanted
    · next hn => exact .opens (.take hn)
  | clear =>
    simp only [opening, start]
    split
    · next hc =>
      rw [Bool.and_eq_true, List.isEmpty_iff] at hc
      exact .opens (.clear hc.1 hc.2)
    · exact .skips .inUse
  | producer name =>
    simp only [opening, start, withNewName]
    split
    · exact .skips (.noHandle rfl)
    · next hn => exact .opens (.producer (by simpa using hn))
  | iter name =>
    simp only [opening, start, withNewName]
    split
    · exact .skips (.noHandle rfl)
    · next hn => exact .skips (.iter (by simpa using hn))
  | send name a =>
    simp only [opening, start, withGuard]
    rcases hg : s.handles.get? name with _ | ⟨_ | _, _ | _⟩
    case some.guard.false => exact .opens (.send a hg)
    all_goals exact .skips (.noHandle rfl)
  | finish name =>
    simp only [opening, start, withGuard]
    rcases hg : s.handles.get? name with _ | ⟨_ | _, _ | _⟩
    case some.guard.false => exact .opens (.finish hg)
    all_goals exact .skips (.noHandle rfl)
  | describe name =>
    simp only [opening, start, withGuard]
    split
    · exact .skips (.describe name)
    · exact .skips (.noHandle rfl)
  | next name =>
    simp only [opening, start, advanceIterator]
    rcases hg : s.handles.get? name with _ | ⟨_ | (_ | _), _ | _⟩
    case some.iterator.false.false => exact .opens (.next hg)
    case some.iterator.true.false => exact .skips (.ended hg)
    all_goals exact .skips (.noHandle rfl)
  | drop name =>
    simp only [opening, start, discard]
    rcases hg : s.handles.get? name with _ | ⟨_ | _, _ | _⟩
    case some.guard.false => exact .opens (.drop hg)
    case some.iterator.false => exact .skips (.drop hg)
    all_goals exact .skips (.noHandle rfl)
  | capacity => exact .skips .capacity
  | isEmpty => exact .skips .isEmpty
  | debug => exact .skips .debug
  | pretty => exact .skips .pretty
  | trap opening => exact .skips (.trap opening)

variable {s s' : Session α} {alone : Bool} {op : Operation α} {purpose : Purpose α} {c : Call α}
  {a : Answer α}

theorem opens_of_opening (h : s.opening alone op = some (purpose, c)) :
    s.Opens alone op purpose c ∧
      s.start alone op = call ⟨s.queue, op.claim s.handles⟩ purpose c := by
  have hbegins := s.begins alone op
  rw [h] at hbegins
  generalize s.start alone op = step at hbegins
  cases hbegins with
  | opens hopens => exact ⟨hopens, rfl⟩

theorem skips_of_opening (h : s.opening alone op = none) :
    ∃ s' a, s.start alone op = s'.answer a ∧ s.Skips op s' a := by
  have hbegins := s.begins alone op
  rw [h] at hbegins
  generalize s.start alone op = step at hbegins
  cases hbegins with
  | skips hskips => exact ⟨_, _, rfl, hskips⟩

/-- Only `clear` opens with a clearing, and only when no other task is inside an operation. -/
theorem Opens.alone_of_clear (h : s.Opens alone op purpose .clear) : alone = true := by
  cases h with
  | clear halone => exact halone

namespace Skips

/-- An operation that makes no call leaves the queue alone, and at most sets a trap for the
logger. -/
theorem queue_eq (h : s.Skips op s' a) :
    s'.queue = s.queue ∨
      ∃ opening, s'.queue = { s.queue with log := s.queue.log.setTrap opening } := by
  cases h with
  | trap opening => exact .inr ⟨opening, rfl⟩
  | _ => exact .inl rfl

theorem exists_log (h : s.Skips op s' a) : ∃ log, s'.queue = { s.queue with log := log } := by
  rcases h.queue_eq with heq | ⟨opening, heq⟩
  · exact ⟨s.queue.log, heq⟩
  · exact ⟨_, heq⟩

end Skips

/-- The first section of an operation is that of its call, or leaves the queue as it is but for a
trap. -/
theorem start_cases (s : Session α) (alone : Bool) (op : Operation α) :
    (∃ purpose c handles, s.Opens alone op purpose c ∧
        s.start alone op = call ⟨s.queue, handles⟩ purpose c) ∨
      ∃ log handles a, s.start alone op = (⟨{ s.queue with log := log }, handles⟩, .finish a) := by
  have hbegins := s.begins alone op
  generalize s.opening alone op = opening at hbegins
  generalize s.start alone op = step at hbegins
  cases hbegins with
  | opens hopens => exact .inl ⟨_, _, _, hopens, rfl⟩
  | @skips s' a hskips =>
    obtain ⟨log, hq⟩ := hskips.exists_log
    exact .inr ⟨log, s'.handles, a, by rw [answer, ← hq]⟩

end Session

end BoundedQueue
