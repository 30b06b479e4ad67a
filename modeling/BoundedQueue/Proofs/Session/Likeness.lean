import BoundedQueue.Proofs.Queue.Likeness
import BoundedQueue.Proofs.Session.Rounds

/-!
# Sessions on queues that are alike

What `Likeness.begin` and `Likeness.resume` say about the sections of a call is carried on to the
operations that are made of calls, and from there to whole rounds of work.  A `Likeness` is taken as
a parameter throughout: nothing here depends on what makes two queues alike, whether items were
exchanged, hooks taken away, or the past of a queue forgotten.

## What is here

* `Operation.exchange`, `Job.map` and `Answer.map` say where items are outside of the queue: in what
  is to be put, in what an iteration has got so far, and in what is handed out or handed back.
  `Likeness.glossary` makes a translation of machines of them.
* `Likeness.Joint` relates two sessions whose queues are alike and whose handles are the same, and
  `Likeness.Abreast` relates what has come of a section of each.  Only a section that leaves the
  first queue sound has to come to the same in the second one, since some likenesses end when, say,
  a hook objects.
* `Likeness.conclude` goes through the purposes for which calls are made, `Likeness.start` through
  the operations, and `Likeness.resume` is about an operation in progress.
* `Likeness.mimics` puts these together: the machine of sessions mimics itself.  With that, the
  theory of translated machines applies, and `Likeness.reports_eq` says that what is seen alike
  after every round is seen alike after all of them, as long as every world on the way was sound.

That a queue is sound can be told from its history, which is never cut short (`exists_notes_start`,
`exists_notes_resume`).  So it is enough to know it at the end of a case.
-/

set_option autoImplicit false

namespace BoundedQueue

variable {α : Type} (f : α → α)

/-! ## Where items are -/

/-- Exchanges the item of a refusal. -/
def Refusal.map : Refusal α → Refusal α
  | full a => full (f a)
  | failed e => failed e

/-- Exchanges the items of an answer. -/
def Answer.map : Answer α → Answer α
  | done => done
  | item a => item (f a)
  | drained => drained
  | listed items failure? => listed (items.map f) failure?
  | next result? => next (result?.map (Except.map f))
  | number n => number n
  | flag b => flag b
  | text s => text s
  | texts ss => texts ss
  | failed e => failed e
  | refused r => refused (r.map f)
  | panicked message => panicked message
  | inUse => inUse
  | noHandle => noHandle

/-- Exchanges the item to put and the hook to install. -/
def Operation.exchange (g : Hook α → Hook α) : Operation α → Operation α
  | enqueue a => enqueue (f a)
  | tryEnqueue a => tryEnqueue (f a)
  | send handle a => send handle (f a)
  | install stage hook => install stage (g hook)
  | op => op

/-- Exchanges the items that an iteration has got. -/
def Purpose.map : Purpose α → Purpose α
  | gather left got => gather left (got.map f)
  | plain => plain
  | attempt => attempt
  | producer handle => producer handle
  | send handle => send handle
  | drop => drop
  | next handle => next handle

/-- Exchanges the items in the middle of an operation. -/
def Job.map (job : Job α) : Job α := ⟨job.purpose.map f, job.phase.map f⟩

theorem Purpose.map_id : Purpose.map (id : α → α) = id := by
  funext purpose
  cases purpose <;> simp [map]

theorem Job.map_id : Job.map (id : α → α) = id := by
  funext job
  rw [map, Purpose.map_id, Phase.map_id]
  rfl

/-! Nothing is exchanged by the identity. -/

@[simp] theorem Refusal.map_id : Refusal.map (id : α → α) = id := by
  funext r
  cases r <;> rfl

@[simp] theorem Answer.map_id : Answer.map (id : α → α) = id := by
  funext a
  cases a with
  | next result? => rcases result? with _ | _ | _ <;> rfl
  | _ => simp [map]

@[simp] theorem Operation.exchange_id : Operation.exchange (id : α → α) id = id := by
  funext op
  cases op <;> rfl

namespace Likeness

variable {f} (L : Likeness f)

/-- How operations, jobs and answers are translated. -/
def glossary : Glossary (Operation α) (Job α) (Answer α) (Operation α) (Job α) (Answer α) where
  operation := Operation.exchange f L.hook
  place := Job.map f
  result := Answer.map f

/-- Two sessions have queues that are alike, and the same handles. -/
structure Joint (s s' : Session α) : Prop where
  queue : L.Like s.queue s'.queue
  handles_eq : s'.handles = s.handles

/-- The same has come of two steps, if that of the first one is sound. -/
def Abreast (r r' : Session.Step α) : Prop :=
  L.Sound r.1.queue.history → L.Joint r.1 r'.1 ∧ r'.2 = r.2.map (Job.map f) (Answer.map f)

/-- A hook that is installed is fit. -/
def FitOperation (op : Operation α) : Prop := ∀ stage h, op = .install stage h → L.Fit h

namespace Joint

variable {L} {s s' : Session α} (hs : L.Joint s s')

include hs

theorem abreast {move : Move (Job α) Side (Answer α)} :
    L.Abreast (s, move) (s', move.map (Job.map f) (Answer.map f)) := fun _ => ⟨hs, rfl⟩

theorem setHandle (handle : String) (kind : HandleKind) (busy : Bool) :
    L.Joint (s.setHandle handle kind busy) (s'.setHandle handle kind busy) :=
  ⟨hs.queue, congrArg (Handles.set · handle _) hs.handles_eq⟩

theorem dropHandle (handle : String) : L.Joint (s.dropHandle handle) (s'.dropHandle handle) :=
  ⟨hs.queue, congrArg (Handles.erase · handle) hs.handles_eq⟩

/-! ### After a call -/

theorem plainAnswer (o : Outcome α) :
    L.Abreast (s.answer (Session.plainAnswer o)) (s'.answer (Session.plainAnswer (o.map f))) := by
  cases o <;> exact hs.abreast

theorem attemptAnswer (o : Outcome α) :
    L.Abreast (s.answer (Session.attemptAnswer o))
      (s'.answer (Session.attemptAnswer (o.map f))) := by
  cases o <;> exact hs.abreast

theorem concludeProducer (handle : String) (o : Outcome α) :
    L.Abreast (s.conclude o (.producer handle)) (s'.conclude (o.map f) (.producer handle)) := by
  cases o with
  | done => exact (hs.setHandle handle .guard false).abreast
  | item | drained | full | failed | panicked => exact hs.abreast

theorem concludeNext (handle : String) (o : Outcome α) :
    L.Abreast (s.concludeNext handle o) (s'.concludeNext handle (o.map f)) := by
  cases o <;> exact (hs.setHandle handle _ false).abreast

theorem concludeDrop (o : Outcome α) :
    L.Abreast (s.concludeDrop o) (s'.concludeDrop (o.map f)) := by
  cases o with
  | failed e =>
    have hrecorded : L.Joint { s with queue := s.queue.record (.dropFailed e) }
        { s' with queue := s'.queue.record (.dropFailed e) } :=
      ⟨L.record hs.queue _, hs.handles_eq⟩
    rw [Session.concludeDrop, Outcome.map, Session.concludeDrop]
    simp only [(L.resembles hs.queue).springs_eq]
    split <;> exact hrecorded.abreast
  | done | item | drained | full | panicked => exact hs.plainAnswer _

theorem concludeGather (left : Option Nat) (got : List α) (o : Outcome α) :
    L.Abreast (s.concludeGather left got o) (s'.concludeGather left (got.map f) (o.map f)) := by
  have hlisted (items : List α) (failure? : Option Error) :
      L.Abreast (s.answer (.listed items.reverse failure?))
        (s'.answer (.listed (items.map f).reverse failure?)) := by
    rw [← List.map_reverse]
    exact hs.abreast
  cases o with
  | item a =>
    cases left with
    | none => exact hs.abreast
    | some n =>
      rw [Session.concludeGather, Outcome.map, Session.concludeGather]
      show L.Abreast (if n ≤ 1 then _ else _) (if n ≤ 1 then _ else _)
      split
      · exact hlisted (a :: got) none
      · exact hs.abreast
  | failed e => exact hlisted got (some e)
  | panicked text => exact hs.abreast
  | done | drained | full => exact hlisted got none

/-- What follows from an outcome follows alike, for every purpose. -/
theorem conclude (o : Outcome α) (purpose : Purpose α) :
    L.Abreast (s.conclude o purpose) (s'.conclude (o.map f) (purpose.map f)) := by
  cases purpose with
  | plain => exact hs.plainAnswer o
  | attempt => exact hs.attemptAnswer o
  | producer handle => exact hs.concludeProducer handle o
  | send handle => exact (hs.setHandle handle .guard false).plainAnswer o
  | drop => exact hs.concludeDrop o
  | next handle => exact hs.concludeNext handle o
  | gather left got => exact hs.concludeGather left got o

omit hs in
theorem enter (hhandles : s'.handles = s.handles) (purpose : Purpose α) {sec sec' : Section α}
    (h : L.Parallel sec sec') :
    L.Abreast (s.enter purpose sec) (s'.enter (purpose.map f) sec') := by
  obtain ⟨queue, move⟩ := sec
  obtain ⟨queue', move'⟩ := sec'
  intro hsound
  cases move with
  | go | wait | signal =>
    obtain ⟨hqueue, hmove⟩ := h hsound
    obtain rfl : move' = _ := hmove
    exact ⟨⟨hqueue, hhandles⟩, rfl⟩
  | finish o =>
    obtain ⟨log, hlog⟩ := Session.conclude_queue ({ s with queue := queue }) o purpose
    have hhistory : (s.enter purpose (queue, .finish o)).1.queue.history = queue.history := by
      rw [Session.enter, hlog]
    obtain ⟨hqueue, hmove⟩ := h (hhistory ▸ hsound)
    obtain rfl : move' = _ := hmove
    have hjoint : L.Joint { s with queue := queue } { s' with queue := queue' } :=
      ⟨hqueue, hhandles⟩
    exact hjoint.conclude o purpose hsound

/-! ### Before a call -/

theorem call (purpose : Purpose α) {c : Call α} (hc : ∀ stage h, c = .install stage h → L.Fit h) :
    L.Abreast (s.call purpose c) (s'.call (purpose.map f) (c.exchange f L.hook)) :=
  enter hs.handles_eq purpose (Likeness.begin hs.queue hc)

theorem withGuard (handle : String) {next next' : Session α → Session.Step α}
    (hnext : L.Abreast (next s) (next' s')) :
    L.Abreast (s.withGuard handle next) (s'.withGuard handle next') := by
  rw [Session.withGuard, Session.withGuard, hs.handles_eq]
  rcases s.handles.get? handle with _ | ⟨_ | _, _ | _⟩
  case some.guard.false => exact hnext
  all_goals exact hs.abreast

theorem withNewName (handle : String) {next next' : Session α → Session.Step α}
    (hnext : L.Abreast (next s) (next' s')) :
    L.Abreast (s.withNewName handle next) (s'.withNewName handle next') := by
  rw [Session.withNewName, Session.withNewName, hs.handles_eq]
  split
  · exact hs.abreast
  · exact hnext

theorem advanceIterator (handle : String) :
    L.Abreast (s.advanceIterator handle) (s'.advanceIterator handle) := by
  rw [Session.advanceIterator, Session.advanceIterator, hs.handles_eq]
  rcases s.handles.get? handle with _ | ⟨_ | _ | _, _ | _⟩
  case some.iterator.false.false =>
    exact (hs.setHandle handle (.iterator false) true).call (.next handle) (by simp)
  all_goals exact hs.abreast

theorem discard (handle : String) : L.Abreast (s.discard handle) (s'.discard handle) := by
  rw [Session.discard, Session.discard, hs.handles_eq]
  rcases s.handles.get? handle with _ | ⟨_ | _, _ | _⟩
  case some.guard.false => exact (hs.dropHandle handle).call .drop (by simp)
  case some.iterator.false => exact (hs.dropHandle handle).abreast
  all_goals exact hs.abreast

/-- **An operation begins alike.** -/
theorem start (alone : Bool) {op : Operation α} (hop : L.FitOperation op) :
    L.Abreast (s.start alone op) (s'.start alone (op.exchange f L.hook)) := by
  have hr := L.resembles hs.queue
  have hlen := hr.len_eq
  have houtline : s'.queue.outline = s.queue.outline := by
    rw [Queue.outline, Queue.outline, hlen, hr.capacity_eq, hr.producers_eq]
  cases op with
  | enqueue | tryEnqueue | dequeue | collect | register | deregister => exact hs.call _ (by simp)
  | install stage h =>
    refine hs.call .plain fun stage' h' heq => ?_
    cases heq
    exact hop stage h rfl
  | take n =>
    show L.Abreast (if n = 0 then _ else _) (if n = 0 then _ else _)
    split
    · exact hs.abreast
    · exact hs.call (.gather (some n) []) (by simp)
  | capacity =>
    show L.Abreast _ (s'.answer (.number s'.queue.capacity))
    rw [hr.capacity_eq]
    exact hs.abreast
  | isEmpty =>
    show L.Abreast _ (s'.answer (.flag (s'.queue.len == 0)))
    rw [hlen]
    exact hs.abreast
  | debug =>
    show L.Abreast _ (s'.answer (.text s'.queue.outline.inline))
    rw [houtline]
    exact hs.abreast
  | pretty =>
    show L.Abreast _ (s'.answer (.text s'.queue.outline.block))
    rw [houtline]
    exact hs.abreast
  | clear =>
    show L.Abreast _ (if alone && s'.handles.isEmpty then _ else _)
    rw [hs.handles_eq]
    show L.Abreast (if alone && s.handles.isEmpty then _ else _) _
    split
    · exact hs.call .plain (by simp)
    · exact hs.abreast
  | producer handle => exact hs.withNewName handle (hs.call (.producer handle) (by simp))
  | iter handle => exact hs.withNewName handle (hs.setHandle handle (.iterator false) false).abreast
  | send handle a =>
    exact hs.withGuard handle ((hs.setHandle handle .guard true).call (.send handle) (by simp))
  | finish handle => exact hs.withGuard handle ((hs.dropHandle handle).call .plain (by simp))
  | describe handle => exact hs.withGuard handle hs.abreast
  | next handle => exact hs.advanceIterator handle
  | drop handle => exact hs.discard handle
  | trap opening =>
    have htrap : L.Joint { s with queue := { s.queue with log := s.queue.log.setTrap opening } }
        { s' with queue := { s'.queue with log := s'.queue.log.setTrap opening } } :=
      ⟨L.trap hs.queue opening, hs.handles_eq⟩
    exact htrap.abreast

/-- **An operation goes on alike.** -/
theorem resume (job : Job α) : L.Abreast (s.resume job) (s'.resume (job.map f)) :=
  enter hs.handles_eq job.purpose (Likeness.resume hs.queue job.phase)

end Joint

end Likeness

namespace Session

/-- A session that forgets what happened to its queue is joint with itself. -/
theorem joint_past (s : Session α) :
    (Likeness.past s.queue.history []).Joint ⟨{ s.queue with history := [] }, s.handles⟩ s :=
  ⟨s.queue.withPast_history.symm, rfl⟩

/-- An operation that begins adds to the history, and takes nothing away. -/
theorem exists_notes_start (s : Session α) (alone : Bool) (op : Operation α) :
    ∃ notes, (s.start alone op).1.queue.history = notes ++ s.queue.history := by
  have hfit : (Likeness.past s.queue.history []).FitOperation op := fun _ _ _ => trivial
  obtain ⟨hjoint, -⟩ := s.joint_past.start alone hfit trivial
  have hop : op.exchange id (Likeness.past s.queue.history []).hook = op :=
    congrFun Operation.exchange_id op
  rw [hop] at hjoint
  exact ⟨_, congrArg Queue.history hjoint.queue⟩

/-- An operation that goes on adds to the history, and takes nothing away. -/
theorem exists_notes_resume (s : Session α) (job : Job α) :
    ∃ notes, (s.resume job).1.queue.history = notes ++ s.queue.history := by
  obtain ⟨hjoint, -⟩ := s.joint_past.resume job trivial
  rw [Job.map_id] at hjoint
  exact ⟨_, congrArg Queue.history hjoint.queue⟩

end Session

namespace Likeness

variable {f} (L : Likeness f)

/-- **On queues that are alike, the machine of sessions does the same.** -/
theorem mimics : Mimics L.glossary Session.machine Session.machine L.Joint
    (fun s => L.Sound s.queue.history) L.FitOperation where
  start alone _ _ _ hs hop := hs.start alone hop
  resume job _ _ hs := hs.resume job
  sound_of_start alone op s hsound := by
    obtain ⟨notes, hnotes⟩ := s.exists_notes_start alone op
    exact L.sound_of_append notes (hnotes ▸ hsound)
  sound_of_resume job s hsound := by
    obtain ⟨notes, hnotes⟩ := s.exists_notes_resume job
    exact L.sound_of_append notes (hnotes ▸ hsound)
  demand_eq _ := rfl
  effort_eq job := Queue.phaseWork_map f job.phase
  stock_eq hs := congrArg (Queue.slotWork * ·) (L.resembles hs.queue).len_eq

/-- Run queues of tasks on queues that are alike. -/
abbrev Rows (s s' : Case.Tasks α) : Prop := s.Alike L.glossary L.Joint L.FitOperation s'

theorem sound_of_afterRounds {s : Case.Tasks α} {rounds : List (List (Assignment (Operation α)))}
    (h : L.Sound (Case.afterRounds s rounds).world.shared.queue.history) :
    L.Sound s.world.shared.queue.history := by
  induction rounds generalizing s with
  | nil => exact h
  | cons work rounds ih => exact L.mimics.sound_of_carryOut (ih h)

end Likeness

/-- **What is seen alike after every round is seen alike after all of them.** -/
theorem Likeness.reports_eq {f : α → α} (L : Likeness f) {β : Type} (g g' : Report α → β)
    (hreport : ∀ {before after before' after' : Case.Tasks α}, L.Rows before before' →
      L.Rows after after' → g' (Case.report before' after') = g (Case.report before after))
    {rounds : List (List (Assignment (Operation α)))}
    (hrounds : ∀ work ∈ rounds, ∀ a ∈ work, AllFit L.FitOperation a.todo) {s s' : Case.Tasks α}
    (hs : L.Rows s s')
    (hsound : L.Sound (Case.afterRounds s rounds).world.shared.queue.history) :
    (Case.reports s'
        (rounds.map (List.map (Assignment.map (Operation.exchange f L.hook))))).map g' =
      (Case.reports s rounds).map g := by
  induction rounds generalizing s s' with
  | nil => rfl
  | cons work rounds ih =>
    have hafter : L.Rows (s.carryOut Session.machine work)
        (s'.carryOut Session.machine (work.map (Assignment.map (Operation.exchange f L.hook)))) :=
      L.mimics.carryOut (hrounds work List.mem_cons_self) hs (L.sound_of_afterRounds hsound)
    rw [List.map_cons, Case.reports, Case.reports, List.map_cons, List.map_cons,
      hreport hs hafter]
    exact congrArg _ (ih (fun work' hmem => hrounds work' (List.mem_cons_of_mem _ hmem)) hafter
      hsound)

end BoundedQueue
