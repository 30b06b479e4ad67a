import BoundedQueue.Proofs.Session.Likeness
import BoundedQueue.Proofs.Session.Promises
import BoundedQueue.Proofs.Session.Safety

/-!
# Clearing a queue

A queue may be cleared while no other operation is in progress and no handle is left, and then
whatever a run has left behind is done away with: items, markers, registered producers, and permits
that got lost.

* `ToClear` says that a task is to clear the queue next, and that it may.  The clearing is then a
  single section, with which the operation is over (`ToClear.advance_eq`).
* `cleared` is what it leaves of a queue whose locks are sound: a new queue with the same hooks, but
  for its past (`cleared_eq`).  If a lock is poisoned, the clearing fails (`ToClear.refused`).  It
  stops where the lock is needed, and what it did before stays done.
* `withPast` puts more notes and records into the past of the queue of a world.  `BehavesAs` says
  that nothing but the past tells a world from another one: from there on, all tasks do and report
  the same.  That the past makes no difference (`behavesAs_withPast`) is a case of queues that are
  alike.

`clear_restores` says when a clearing succeeds, and that the world then behaves as one with a new
queue; and what is left of the queue by one that fails.
-/

set_option autoImplicit false

namespace BoundedQueue

variable {α : Type}

/-! ## Worlds that differ in the past -/

/-- Entries that both records end in make no difference to what was added. -/
theorem newSince_past {β : Type} (before after past : List β) :
    newSince (before ++ past) (after ++ past) = newSince before after := by
  have hlen : (after ++ past).length - (before ++ past).length = after.length - before.length := by
    simp only [List.length_append]
    omega
  rw [newSince, newSince, hlen, List.take_append_of_le_length (Nat.sub_le _ _)]

namespace World

/-- The world with more notes and records in the past of its queue. -/
def withPast (w : Traffic α) (notes : List (Note α)) (records : List Record) : Traffic α :=
  { w with shared := ⟨w.shared.queue.withPast notes records, w.shared.handles⟩ }

variable {w w' : Traffic α} {notes : List (Note α)} {records : List Record}

/-- Another past exchanges nothing. -/
theorem glossary_past : (Likeness.past notes records).glossary = ⟨id, id, id⟩ :=
  congr (congr (congrArg Glossary.mk Operation.exchange_id) Job.map_id) Answer.map_id

/-- A world is like the one with another past, and like no other one. -/
theorem alike_past_iff :
    w.Alike (Likeness.past notes records).glossary (Likeness.past notes records).Joint
      (Likeness.past notes records).FitOperation w' ↔ w' = w.withPast notes records := by
  rw [glossary_past]
  constructor
  · rintro ⟨⟨hqueue, hhandles⟩, htasks, hevents, -⟩
    obtain ⟨⟨queue, handles⟩, tasks, events⟩ := w'
    rw [Roster.map_id] at htasks
    rw [Event.map_id, List.map_id] at hevents
    obtain rfl : queue = _ := hqueue
    obtain rfl : handles = _ := hhandles
    obtain rfl : tasks = _ := htasks
    obtain rfl : events = _ := hevents
    rfl
  · rintro rfl
    refine ⟨⟨rfl, rfl⟩, ?_, ?_, fun _ _ _ _ _ _ => trivial⟩
    · rw [Roster.map_id]; rfl
    · rw [Event.map_id, List.map_id]; rfl

/-- Nothing but the past tells a world from a `new` one, now and whatever happens later, and so the
same is reported of whatever rounds of work are carried out. -/
structure BehavesAs (w new : Traffic α) (notes : List (Note α)) (records : List Record) : Prop where
  eq : w = new.withPast notes records
  after_eq : ∀ later, w.after Session.machine later =
    (new.after Session.machine later).withPast notes records
  reports_eq : ∀ ready waiting wake rounds,
    Case.reports ⟨w, ready, waiting, wake⟩ rounds = Case.reports ⟨new, ready, waiting, wake⟩ rounds

theorem report_past {before after before' after' : Case.Tasks α}
    (hbefore : (Likeness.past notes records).Rows before before')
    (hafter : (Likeness.past notes records).Rows after after') :
    Case.report before' after' = Case.report before after := by
  have hround : before'.roundSince after' = before.roundSince after := by
    rw [hbefore.roundSince_eq hafter, glossary_past, Round.map_id]
    rfl
  rw [Case.report, Case.report, hround, hbefore.world.shared.queue, hafter.world.shared.queue]
  simp only [Queue.withPast, newSince_past]
  rfl

/-- **The past makes no difference to what comes later.** -/
theorem behavesAs_withPast (new : Traffic α) (notes : List (Note α)) (records : List Record) :
    (new.withPast notes records).BehavesAs new notes records where
  eq := rfl
  after_eq later := by
    have hfit : ∀ a, .handOut a ∈ later →
        AllFit (Likeness.past notes records).FitOperation a.todo := fun _ _ _ _ _ _ _ => trivial
    have halike := (Likeness.past notes records).mimics.after hfit
      (alike_past_iff.2 (Eq.refl (new.withPast notes records))) trivial
    rw [glossary_past, Happening.map_id, List.map_id, ← glossary_past] at halike
    exact alike_past_iff.1 halike
  reports_eq ready waiting wake rounds := by
    have hrows : (Likeness.past notes records).Rows ⟨new, ready, waiting, wake⟩
        ⟨new.withPast notes records, ready, waiting, wake⟩ :=
      ⟨alike_past_iff.2 rfl, rfl, rfl, rfl⟩
    have hfit : ∀ work ∈ rounds, ∀ a ∈ work,
        AllFit (Likeness.past notes records).FitOperation a.todo :=
      fun _ _ _ _ _ _ _ _ _ => trivial
    have hreports :=
      (Likeness.past notes records).reports_eq id id report_past hfit hrows trivial
    have hrounds : rounds.map (List.map (Assignment.map
        (Operation.exchange id (Likeness.past notes records).hook))) = rounds := by
      rw [show Operation.exchange id (Likeness.past notes records).hook = id from
        Operation.exchange_id, Assignment.map_id, List.map_id_fun, List.map_id]
    rwa [List.map_id, List.map_id, hrounds] at hreports

/-- A world without handles behaves as one in which the past of its queue is forgotten. -/
theorem behavesAs_of_shared {queue : Queue α}
    (h : w.shared = ⟨queue.withPast notes records, .empty⟩) :
    w.BehavesAs { w with shared := .ofQueue queue } notes records := by
  obtain ⟨shared, tasks, events⟩ := w
  obtain rfl : shared = _ := h
  exact behavesAs_withPast ⟨.ofQueue queue, tasks, events⟩ notes records

end World

/-! ## The section of a clearing -/

namespace Queue

variable {q q' : Queue α}

/-- No passage changes the name of a semaphore. -/
theorem Passage.names_eq {spot : Spot α} {r : Option Remark}
    {move : Move (Phase α) Side (Outcome α)} (h : Passage q spot r q' move) :
    q'.free.name = q.free.name ∧ q'.filled.name = q.filled.name := by
  cases h with
  | push hb hc | popItem hb hc | popBlind hb hc | popAbsorbed hb hc | popConcluded hb hc
  | storePanicked hb hc | storeRejected hb hc | fetchPanicked hb hr hc | fetchRejected hb hr hc =>
    obtain ⟨onE, onD, notes, -, rfl⟩ := exists_of_consult hc
    exact ⟨rfl, rfl⟩
  | @install stage => cases stage <;> exact ⟨rfl, rfl⟩
  | _ => exact ⟨rfl, rfl⟩

/-- What a clearing leaves of a queue whose locks are sound. -/
def cleared (q : Queue α) : Queue α :=
  { q with
    ring := q.ring.clear
    producers := 0
    free := { q.free with permits := q.capacity }
    filled := { q.filled with permits := 0 }
    history := .renewed :: .emptied :: q.history }

theorem clear_of_sound (hb : q.bufferPoisoned = false) (hp : q.producersPoisoned = false)
    (hf : q.free.poisoned = false) (hg : q.filled.poisoned = false) :
    q.clear = (q.cleared, .finish .done) := by
  simp [clear, hb, note, hp, resetThen, semaphore, Semaphore.reset?, hf, setSemaphore, hg, cleared]

/-- A queue that was cleared is as good as new, but for its past. -/
theorem cleared_eq (hb : q.bufferPoisoned = false) (hp : q.producersPoisoned = false)
    (hcap : q.ring.capacity = q.capacity) (hf : q.free = .fresh "free_slots" q.free.permits)
    (hg : q.filled = .fresh "filled_slots" q.filled.permits) :
    q.cleared = (fresh q.capacity q.onEnqueue q.onDequeue { q.log with records := [] }).withPast
      (.renewed :: .emptied :: q.history) q.log.records := by
  rw [cleared, hb, hp, Ring.clear, hcap, hf, hg]
  rfl

end Queue

namespace World

variable {w : Traffic α} {t : Int} {todo : List (Instruction (Operation α))}

/-- Task `t` is to clear the queue next, no other task is inside an operation, and there is no
handle. -/
structure ToClear (w : Traffic α) (t : Int) (todo : List (Instruction (Operation α))) : Prop where
  get_eq : w.tasks.get t = ⟨.idle, .perform .clear :: todo⟩
  outside : w.tasks.othersOutside t = true
  handles_eq : w.shared.handles = .empty

/-- A clearing is a single section, and the operation is over with it. -/
theorem ToClear.advance_eq (h : w.ToClear t todo) {q' : Queue α} {o : Outcome α}
    (hclear : w.shared.queue.clear = (q', .finish o)) :
    w.advance Session.machine t =
      ((({ w with shared := ⟨q', .empty⟩ } : Traffic α).place t .idle todo).report t
        (.completed .clear (Session.plainAnswer o)), .ran) := by
  have hstart : w.shared.start true .clear = (⟨q', .empty⟩, .finish (Session.plainAnswer o)) := by
    rw [Session.start, h.handles_eq]
    show w.shared.enter .plain w.shared.queue.clear = _
    rw [hclear, ← h.handles_eq]
    rfl
  rw [advance_of_perform _ h.get_eq, h.outside]
  show w.settleMove t .clear todo (w.shared.start true .clear) = _
  rw [hstart]
  rfl

/-- A clearing that a poisoned lock refuses fails, where the logger does not panic. -/
theorem ToClear.refused (h : w.ToClear t todo) {q' : Queue α} {l : Lock}
    (hclear : w.shared.queue.clear = q'.refused l fun e => .finish (.failed e))
    (hlog : q'.log = w.shared.queue.log) (hlogger : ¬w.LoggerPanics t Logbook.panicText) :
    w.Answers t .clear (.failed l.error) ∧
      (w.advance Session.machine t).1.shared.queue = q'.record l.complaint := by
  by_cases hsprings : q'.log.springs l.complaint = true
  · have hadv := h.advance_eq (hclear.trans (if_pos hsprings))
    obtain ⟨hset, hsprung⟩ := Queue.trap_of_springs hsprings
    refine absurd ⟨rfl, hlog ▸ hset, ?_⟩ hlogger
    rw [hadv]
    exact hsprung
  · have hadv := h.advance_eq (hclear.trans (if_neg hsprings))
    rw [Answers, hadv]
    exact ⟨rfl, rfl⟩

section Fresh

variable {capacity : Nat} {onEnqueue onDequeue : Option (Hook α)} {log : Logbook}

/-- The semaphores keep their names. -/
theorem names_after (hpos : 0 < capacity) (hmax : capacity ≤ Semaphore.maxPermits)
    (hs : List (Happening (Operation α))) :
    let w := (Traffic.fresh capacity onEnqueue onDequeue log).after Session.machine hs
    w.shared.queue.free.name = "free_slots" ∧ w.shared.queue.filled.name = "filled_slots" := by
  induction hs with
  | nil => exact ⟨rfl, rfl⟩
  | cons x hs ih =>
    refine (course_after onEnqueue onDequeue log hpos hmax x hs).keeps
      (I := fun q _ => q.free.name = "free_slots" ∧ q.filled.name = "filled_slots")
      (sorted_fresh onEnqueue onDequeue log capacity hs) ih (fun _ _ _ => id) (fun _ _ => id)
      (fun _ _ _ _ _ => id) ?_
    intro spot r q' move others _ _ hp
    obtain ⟨hfree, hfilled⟩ := hp.names_eq
    exact ⟨hfree.trans ih.1, hfilled.trans ih.2⟩

/-- **Clearing restores a fresh queue.**  While nothing else is in progress, no handle is left and
the logger does not panic, a clearing succeeds just if neither lock is poisoned.  Then only the past
tells the queue from a new one with the hooks that it has.  If the buffer lock is poisoned, nothing
happens.  If only the producers lock is, the ring is emptied, and nothing else happens. -/
theorem clear_restores (hpos : 0 < capacity) (hmax : capacity ≤ Semaphore.maxPermits)
    (hs : List (Happening (Operation α)))
    (hclear : ((Traffic.fresh capacity onEnqueue onDequeue log).after Session.machine hs).ToClear
      t todo)
    (hlogger : ¬((Traffic.fresh capacity onEnqueue onDequeue log).after Session.machine
      hs).LoggerPanics t Logbook.panicText) :
    let w := (Traffic.fresh capacity onEnqueue onDequeue log).after Session.machine hs
    let q := w.shared.queue
    let w' := (w.advance Session.machine t).1
    (w.Answers t .clear .done ↔ q.bufferPoisoned = false ∧ q.producersPoisoned = false) ∧
      (w.Answers t .clear .done → w'.BehavesAs
        { w' with
          shared := .ofQueue
            (.fresh capacity q.onEnqueue q.onDequeue { q.log with records := [] }) }
        (.renewed :: .emptied :: q.history) q.log.records) ∧
      (q.bufferPoisoned = true → w.Answers t .clear (.failed (.poisoned "buffer")) ∧
        w'.shared.queue = { q with log := q.log.write .bufferPoisoned }) ∧
      (q.bufferPoisoned = false → q.producersPoisoned = true →
        w.Answers t .clear (.failed (.poisoned "producers")) ∧
          w'.shared.queue = { q with
            ring := .empty capacity
            log := q.log.write .producersPoisoned
            history := .emptied :: q.history }) := by
  intro w q w'
  have hwithin := (regular_after onEnqueue onDequeue log hpos hmax hs).within
  obtain ⟨hfree, hfilled⟩ : q.free.name = "free_slots" ∧ q.filled.name = "filled_slots" :=
    names_after hpos hmax hs
  have hcap : q.capacity = capacity := (producers_le_after onEnqueue onDequeue log hpos hmax hs).1
  have hring : q.ring.clear = .empty capacity :=
    congrArg Ring.empty (hwithin.capacity_eq.trans hcap)
  have hbuffer (hb : q.bufferPoisoned = true) := hclear.refused (if_pos hb) rfl hlogger
  have hproducers (hb : q.bufferPoisoned = false) (hp : q.producersPoisoned = true) := by
    have hstop : q.clear = ({ q with ring := .empty capacity }.note .emptied).refused .producers
        fun e => .finish (.failed e) := by
      rw [Queue.clear, if_neg (by simp [hb]), hring]
      exact if_pos hp
    exact hclear.refused hstop rfl hlogger
  have hsound (hb : q.bufferPoisoned = false) (hp : q.producersPoisoned = false) :=
    hclear.advance_eq (Queue.clear_of_sound hb hp hwithin.freeSound hwithin.filledSound)
  have hanswers : w.Answers t .clear .done ↔
      q.bufferPoisoned = false ∧ q.producersPoisoned = false := by
    constructor
    · intro hdone
      cases hb : q.bufferPoisoned with
      | true => cases hdone.symm.trans (hbuffer hb).1
      | false =>
        cases hp : q.producersPoisoned with
        | true => cases hdone.symm.trans (hproducers hb hp).1
        | false => exact ⟨rfl, rfl⟩
    · rintro ⟨hb, hp⟩
      exact congrArg (World.events ∘ Prod.fst) (hsound hb hp)
  refine ⟨hanswers, fun hdone => ?_, hbuffer, hproducers⟩
  obtain ⟨hb, hp⟩ := hanswers.1 hdone
  have hshared : w'.shared = ⟨q.cleared, .empty⟩ :=
    congrArg (World.shared ∘ Prod.fst) (hsound hb hp)
  rw [Queue.cleared_eq hb hp hwithin.capacity_eq
    (congr (congr (congrArg Semaphore.mk hfree) rfl) hwithin.freeSound)
    (congr (congr (congrArg Semaphore.mk hfilled) rfl) hwithin.filledSound), hcap] at hshared
  exact behavesAs_of_shared hshared

end Fresh

/-- A hook that rejects just the second entry that it is shown. -/
def moody : Hook Nat :=
  .ofVerdict fun shown _ => if shown.length = 1 then .reject ⟨"no", []⟩ else .accept

/-- An item and a registered producer are left over, and the slot is lost for which the logger
panicked at a rejection.  The queue is to be cleared next. -/
def cluttered : Traffic Nat :=
  (Traffic.fresh 2 (some moody) none (.blank (some .warn))).after Session.machine
    [.advance 1, .advance 1, .advance 1, .advance 1, .advance 1, .advance 1, .advance 1, .advance 1,
      .handOut ⟨1, [.perform .register, .perform (.enqueue 7), .perform (.trap "enqueue hook"),
        .perform (.enqueue 8), .perform .clear, .perform (.enqueue 9)]⟩]

theorem clear_restores_cluttered :
    let q := cluttered.shared.queue
    let w' := (cluttered.advance Session.machine 1).1
    cluttered.ToClear 1 [.perform (.enqueue 9)] ∧
      ¬cluttered.LoggerPanics 1 Logbook.panicText ∧
      (q.len, q.producers, q.free.permits, q.filled.permits) = (1, 1, 0, 1) ∧
      cluttered.Answers 1 .clear .done ∧
      w'.BehavesAs
        { w' with
          shared := .ofQueue (.fresh 2 q.onEnqueue q.onDequeue { q.log with records := [] }) }
        (.renewed :: .emptied :: q.history) q.log.records ∧
      q.onEnqueue.map (fun h => h.shown) = some [.item 8, .item 7] := by
  have hclear : cluttered.ToClear 1 [.perform (.enqueue 9)] := ⟨rfl, by decide +kernel, rfl⟩
  -- the trap has sprung already
  have hlogger : ¬cluttered.LoggerPanics 1 Logbook.panicText := fun h => h.2.1 rfl
  obtain ⟨hdone, hbehaves, -⟩ := clear_restores (by decide) (by decide) _ hclear hlogger
  have hanswers : cluttered.Answers 1 .clear .done := hdone.2 ⟨rfl, rfl⟩
  exact ⟨hclear, hlogger, by decide +kernel, hanswers, hbehaves hanswers, by decide +kernel⟩

end World

end BoundedQueue
