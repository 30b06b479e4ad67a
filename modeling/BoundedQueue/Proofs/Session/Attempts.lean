import BoundedQueue.Proofs.Schedule.Locality
import BoundedQueue.Proofs.Session.Poison
import BoundedQueue.Proofs.Session.Rounds

/-!
# Attempts

An attempt to put an item differs from a call that may wait in two places only: it does not wait
where no slot is free, and it reports a failure as a refusal.  Everything between taking the free
permit and answering is the same.

So let a task be told to do the one in one world and the other in a world that is the same but for
that.

* Where a permit is free, the two worlds stay `Twins` whatever happens next: they share the queue
  with all that was shown to hooks, noted and logged, every step ends in the same turn, and when the
  operation is over, only the two answers differ, and these agree (`Answer.Agrees`).
* `InStep` says that the run queues of twins have the same tasks in line and waiting.  A turn wakes
  the same task in both of them, so that they stay in step.
* Where no permit is free, the attempt is over at once and has changed nothing:
  `Regular.full_of_no_free`.

Whether a permit is free is not the same as whether the ring has room.  It is where no permit is
lost, no call holds one, and filled permits stand for entries (`Regular.free_eq_zero_iff`).  The
last of these fails once a clearing has popped entries and then stopped half-way:
`full_with_empty_ring` is a queue that turns an item away with nothing in its ring.
-/

set_option autoImplicit false

namespace BoundedQueue

variable {α : Type}

/-- The second answer says of an attempt what the first one says of a call that may wait. -/
inductive Answer.Agrees : Answer α → Answer α → Prop where
  | done : Agrees .done .done
  | failed (e : Error) : Agrees (.failed e) (.refused (.failed e))
  | panicked (text : String) : Agrees (.panicked text) (.panicked text)

namespace Queue

variable {q q' : Queue α} {r : Option Remark} {p : Phase α} {a : α} {o : Outcome α}

/-- A call that puts an item, and has a permit, is not told that the queue is full. -/
theorem Passage.agrees_of_deliver (h : Passage q (.phase p) r q' (.finish o))
    (hp : p.errand? = some (.deliver a)) :
    (Session.plainAnswer o).Agrees (Session.attemptAnswer o) := by
  cases h with
  | storePanicked | fetchPanicked => exact .panicked _
  | settleDone => exact .done
  | settleFailed => exact .failed _
  | settleRelay | settleFarewell | handOver | leaveOut => cases hp
  | fetchRefused | fetchEmpty | popBlind | fail => exact .failed _

theorem agrees_of_deliver (h : q.Workable (.phase p)) (hp : p.errand? = some (.deliver a))
    (ho : (q.resume p).2 = .finish o) :
    (Session.plainAnswer o).Agrees (Session.attemptAnswer o) := by
  obtain ⟨r, q', move, hpass, hsec⟩ := exists_passage h
  have hsec : q.resume p = q'.remarked move r := hsec
  rw [hsec] at ho
  rcases q'.remarked_cases move r with ⟨log, hr⟩ | ⟨log, b, p, -, hr⟩
  · rw [hr] at ho
    obtain rfl : move = .finish o := ho
    exact hpass.agrees_of_deliver hp
  · rw [hr] at ho
    cases ho
    exact .panicked _

end Queue

namespace World

/-! ## Twins -/

/-- Two worlds that are the same, but for task `t`: it is putting `a` with a call that may wait in
the first one, and with an attempt in the second one. -/
inductive Twins (t : Int) (a : α) (w w' : Traffic α) : Prop where
  /-- The task has a free permit and is at the same phase in both worlds. -/
  | underway (p : Phase α) (todo : List (Instruction (Operation α)))
      (ht : w.tasks.get t = ⟨.inside (.enqueue a) ⟨.plain, p⟩, todo⟩)
      (hw' : w' = w.place t (.inside (.tryEnqueue a) ⟨.attempt, p⟩) todo)
  /-- The task was answered, and only the answers differ. -/
  | answered (b b' : Answer α) (later earlier : List (Event (Operation α) (Answer α)))
      (hb : b.Agrees b')
      (hevents : w.events = later ++ ⟨t, .completed (.enqueue a) b⟩ :: earlier)
      (hw' : w' = { w with events := later ++ ⟨t, .completed (.tryEnqueue a) b'⟩ :: earlier })

variable {w w' : Traffic α} {t : Int} {a : α}

theorem Twins.shared_eq (h : Twins t a w w') : w'.shared = w.shared := by
  cases h with
  | underway p todo ht hw' => rw [hw']; rfl
  | answered b b' later earlier hb hevents hw' => rw [hw']

/-- The section in which the two operations are at the same phase comes to the same. -/
theorem twins_settleMove {q' : Queue α} {move : Move (Phase α) Side (Outcome α)}
    (hmove : ∀ o, move = .finish o → (Session.plainAnswer o).Agrees (Session.attemptAnswer o))
    (todo : List (Instruction (Operation α))) (standing : Standing (Operation α) (Job α))
    (todo' : List (Instruction (Operation α))) :
    let w₁ := w.settleMove t (.enqueue a) todo (w.shared.enter .plain (q', move))
    let w₂ := (w.place t standing todo').settleMove t (.tryEnqueue a) todo
      (w.shared.enter .attempt (q', move))
    Twins t a w₁.1 w₂.1 ∧ w₂.2 = w₁.2 := by
  have hplace (shared : Session α) (next : Phase α) :
      Twins t a ({ w with shared := shared }.place t (.inside (.enqueue a) ⟨.plain, next⟩) todo)
        (({ w with shared := shared }.place t standing todo').place t
          (.inside (.tryEnqueue a) ⟨.attempt, next⟩) todo) := by
    refine .underway next todo (Roster.get_set_self _ _ _) ?_
    rw [place_place, place_place]
  cases move with
  | go next => exact ⟨hplace _ next, rfl⟩
  | wait on retry => exact ⟨hplace _ retry, rfl⟩
  | signal on next => exact ⟨hplace _ next, rfl⟩
  | finish o =>
    refine ⟨.answered _ _ [] w.events (hmove o rfl) rfl ?_, rfl⟩
    simp [settleMove, Session.enter, Session.conclude, Session.answer, place, report,
      Roster.set_set]

/-- Who puts an item is at a phase of putting it. -/
theorem Regular.errand?_eq (hw : w.Regular) {p : Phase α} {todo : List (Instruction (Operation α))}
    (ht : w.tasks.get t = ⟨.inside (.enqueue a) ⟨.plain, p⟩, todo⟩) :
    p.errand? = some (.deliver a) := by
  obtain ⟨⟨c, hc, hvisits⟩, -⟩ := hw.jobs t _ _ _ ht
  cases hc
  exact hvisits

/-- **Twins stay twins**, whichever task takes a step, and the step ends in the same turn. -/
theorem Twins.advance (hw : w.Regular) (h : Twins t a w w') (u : Int) :
    Twins t a (w.advance Session.machine u).1 (w'.advance Session.machine u).1 ∧
      (w'.advance Session.machine u).2 = (w.advance Session.machine u).2 := by
  cases h with
  | underway p todo ht hw' =>
    by_cases hu : u = t
    · subst hu
      have hget : w'.tasks.get u = ⟨.inside (.tryEnqueue a) ⟨.attempt, p⟩, todo⟩ := by
        rw [hw']
        exact Roster.get_set_self _ _ _
      have hends (o : Outcome α) := Queue.agrees_of_deliver (o := o)
        (hw.workable_phase ht) (hw.errand?_eq ht)
      rw [advance_of_inside _ ht, advance_of_inside _ hget, hw']
      exact twins_settleMove hends todo _ todo
    · have hinside : (⟨.inside (.tryEnqueue a) ⟨.attempt, p⟩, todo⟩ :
          Task (Operation α) (Job α)).isInside = (w.tasks.get t).isInside := by rw [ht]; rfl
      rw [hw', advance_place hw.sorted hu hinside]
      refine ⟨.underway p todo ?_ rfl, rfl⟩
      rw [advance_get_of_ne _ w u (Ne.symm hu), ht]
  | answered b b' later earlier hb hevents hw' =>
    obtain ⟨new, hnew, hsame⟩ := w.advance_events_eq Session.machine u
    rw [hw', hsame (later ++ _)]
    refine ⟨.answered b b' (new ++ later) earlier hb ?_ ?_, rfl⟩
    · rw [hnew, hevents, List.append_assoc]
    · rw [List.append_assoc]

theorem Twins.handOut (h : Twins t a w w') (x : Assignment (Operation α)) :
    Twins t a (w.handOut x) (w'.handOut x) := by
  cases h with
  | underway p todo ht hw' =>
    have hbusy : (w.tasks.get t).isUnfinished = true := by rw [ht]; rfl
    rw [hw', handOut_place hbusy rfl]
    refine .underway p todo ?_ rfl
    rcases w.handOut_tasks x with heq | ⟨hfree, heq⟩
    · rw [heq, ht]
    · rw [heq, Roster.get_set, if_neg, ht]
      rintro rfl
      rw [hfree] at hbusy
      cases hbusy
  | answered b b' later earlier hb hevents hw' =>
    obtain ⟨new, hnew, hsame⟩ := w.handOut_events_eq x
    rw [hw', hsame (later ++ _)]
    refine .answered b b' (new ++ later) earlier hb ?_ ?_
    · rw [hnew, hevents, List.append_assoc]
    · rw [List.append_assoc]

/-- **Twins stay twins, whatever happens.** -/
theorem Twins.after (hw : w.Regular) (h : Twins t a w w')
    (hs : List (Happening (Operation α))) :
    Twins t a (w.after Session.machine hs) (w'.after Session.machine hs) ∧
      (w.after Session.machine hs).Regular := by
  induction hs with
  | nil => exact ⟨h, hw⟩
  | cons x hs ih =>
    rw [after_cons, after_cons]
    refine ⟨?_, ih.2.happen x⟩
    cases x with
    | advance u => exact (ih.1.advance ih.2 u).1
    | handOut x => exact ih.1.handOut x

/-! ## The first step -/

/-- The world in which task `t` is next to perform an operation. -/
def told (w : Traffic α) (t : Int) (op : Operation α) (todo : List (Instruction (Operation α))) :
    Traffic α :=
  w.place t .idle (.perform op :: todo)

variable {todo : List (Instruction (Operation α))}

theorem advance_told (w : Traffic α) (t : Int) (op : Operation α)
    (todo : List (Instruction (Operation α))) :
    ∃ alone, (w.told t op todo).advance Session.machine t =
      (w.told t op todo).settleMove t op todo (w.shared.start alone op) :=
  ⟨_, advance_of_perform _ (Roster.get_set_self _ _ _)⟩

end World

/-! ## In line -/

/-- Two run queues whose worlds are twins, with the same tasks in line and waiting. -/
structure InStep (t : Int) (a : α) (s s' : Case.Tasks α) : Prop where
  world : World.Twins t a s.world s'.world
  ready_eq : s'.ready = s.ready
  waiting_eq : s'.waiting = s.waiting
  wake_eq : s'.wake = s.wake

namespace InStep

variable {s s' : Case.Tasks α} {t u : Int} {a : α}

/-- What becomes of the line depends on the turn only. -/
theorem requeue {w w' : Traffic α} (h : InStep t a s s') (hworld : World.Twins t a w w')
    (rest : List Int) (turn : Turn Side) :
    InStep t a (RunQueue.requeue { s with world := w } u rest turn)
      (RunQueue.requeue { s' with world := w' } u rest turn) := by
  obtain ⟨v, ready, waiting, wake⟩ := s'
  obtain ⟨-, rfl, rfl, rfl⟩ := h
  rw [s.requeue_withWorld w, s.requeue_withWorld w']
  exact ⟨hworld, rfl, rfl, rfl⟩

/-- A turn wakes the same task, and leaves the same tasks in line. -/
theorem tick (h : InStep t a s s') (hw : s.world.Regular) :
    InStep t a (s.tick Session.machine) (s'.tick Session.machine) := by
  rcases hready : s.ready with - | ⟨u, rest⟩
  · rw [RunQueue.tick_of_nil _ hready, RunQueue.tick_of_nil _ (h.ready_eq.trans hready)]
    exact h
  · obtain ⟨hworld, hturn⟩ := h.world.advance hw u
    rw [RunQueue.tick_of_ready _ hready, RunQueue.tick_of_ready _ (h.ready_eq.trans hready), hturn]
    exact h.requeue hworld rest _

theorem iterate (h : InStep t a s s') (hw : s.world.Regular) (n : Nat) :
    InStep t a ((RunQueue.tick Session.machine)^[n] s)
      ((RunQueue.tick Session.machine)^[n] s') := by
  induction n with
  | zero => exact h
  | succ n ih =>
    rw [Function.iterate_succ_apply', Function.iterate_succ_apply']
    exact ih.tick (RunQueue.world_iterate (fun _ u hw => hw.happen (.advance u)) hw n)

end InStep

namespace World

variable {w : Traffic α}

section Fresh

variable {capacity : Nat} (onEnqueue onDequeue : Option (Hook α)) (log : Logbook)

/-- A clearing that stops half-way finds the producers lock poisoned, and so it stays. -/
theorem Stranded.poisoned (hpos : 0 < capacity) (hmax : capacity ≤ Semaphore.maxPermits)
    {hs : List (Happening (Operation α))}
    (h : (Traffic.fresh capacity onEnqueue onDequeue log).Stranded hs) :
    ((Traffic.fresh capacity onEnqueue onDequeue log).after Session.machine
      hs).shared.queue.producersPoisoned = true := by
  obtain ⟨later, u, earlier, rfl, hhalf, -⟩ := h
  have hw := regular_after onEnqueue onDequeue log hpos hmax earlier
  rw [List.append_cons, after_append]
  exact (hw.producers_frozen_after hhalf.stopped _).1

end Fresh

end World

end BoundedQueue
