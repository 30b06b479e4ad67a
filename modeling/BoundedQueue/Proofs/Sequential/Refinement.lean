import BoundedQueue.Proofs.Sequential.Evaluation
import BoundedQueue.Proofs.Session.Rounds

/-!
# A task that is alone with a queue

A task that makes one call after the other, and is alone with the queue, sees just what it would see
of a `Reference`: the answers, the entries that hooks are shown, the length and the number of
producers after every call, and the call that waits for ever.

* `running` and `stopped` are run queues with a single task, which is in the middle of a call, or
  whose call has come to a stop.  A turn is then a section of the call (`tick_running`), and after
  some turns the call has come to its stop (`exists_run`).
* Between two calls the task is `Resting`, or it is `Stuck` in a call that waits.  A call that is
  made of a resting task comes to its stop (`carryOut_resting`); a stuck task is told in vain
  (`carryOut_stuck`), so that nothing changes any more.
* `silent_report` says that what is seen of a queue is what is seen of the reference that it
  mirrors.  The log is left out, since a reference keeps none.

`Case.reports_eq` is the induction over the calls, and `Case.refines_reference` says it of a whole
case, from the builder on.
-/

set_option autoImplicit false

namespace BoundedQueue

variable {α : Type}

/-! ## A task that is alone -/

/-- What a call is made for that is the whole operation. -/
def Call.purpose : Call α → Purpose α
  | tryEnqueue _ => .attempt
  | _ => .plain

/-- Where a task stands whose call comes to a spot. -/
def Call.taskAt (c : Call α) : Spot α → Task (Operation α) (Job α)
  | .opening _ => ⟨.idle, [.perform c.operation]⟩
  | .phase p => ⟨.inside c.operation ⟨c.purpose, p⟩, []⟩

/-- A queue without handles, and one task. -/
def World.alone (t : Int) (q : Queue α) (x : Task (Operation α) (Job α))
    (events : List (Event (Operation α) (Answer α))) : Traffic α :=
  ⟨⟨q, .empty⟩, [(t, x)], events⟩

namespace Session

theorem start_operation (q : Queue α) (c : Call α) :
    start ⟨q, .empty⟩ true c.operation = enter ⟨q, .empty⟩ c.purpose (q.begin c) := by
  cases c <;> rfl

theorem conclude_purpose (s : Session α) (c : Call α) (o : Outcome α) :
    s.conclude o c.purpose = s.answer (c.answer o) := by
  cases c <;> rfl

end Session

namespace World

variable {t : Int} {q q₁ : Queue α} {c : Call α} {spot : Spot α} {side : Side} {p : Phase α}
  {o : Outcome α} {events : List (Event (Operation α) (Answer α))}

/-- What a section of a call comes to if it is made by a task that is alone. -/
theorem settleMove_alone (x : Task (Operation α) (Job α)) (q₁ : Queue α)
    (move : Move (Phase α) Side (Outcome α)) :
    (alone t q x events).settleMove t c.operation []
        (Session.enter ⟨q, .empty⟩ c.purpose (q₁, move)) =
      match move with
      | .go p => (alone t q₁ (c.taskAt (.phase p)) events, .ran)
      | .wait side p => (alone t q₁ (c.taskAt (.phase p)) events, .blocked side)
      | .signal side p => (alone t q₁ (c.taskAt (.phase p)) events, .signalled side)
      | .finish o =>
        (alone t q₁ .free (⟨t, .completed c.operation (c.answer o)⟩ :: events), .ran) := by
  have hset (y : Task (Operation α) (Job α)) : Roster.set [(t, x)] t y = [(t, y)] := by
    simp [Roster.set]
  cases move with
  | go | wait | signal => simp only [Session.enter, settleMove, place, alone, hset, Call.taskAt]
  | finish o =>
    simp only [Session.enter, Session.conclude_purpose, Session.answer, settleMove, place, report,
      alone, hset, Task.free]

/-- The next section of a task that is alone is that of its call. -/
theorem advance_alone (hspot : ∀ c', spot = .opening c' → c' = c) :
    (alone t q (c.taskAt spot) events).advance Session.machine t =
      (alone t q (c.taskAt spot) events).settleMove t c.operation []
        (Session.enter ⟨q, .empty⟩ c.purpose (q.sectionAt spot)) := by
  cases spot with
  | opening c' =>
    obtain rfl := hspot c' rfl
    have hget : (alone t q (c'.taskAt (.opening c')) events).tasks.get t =
        ⟨.idle, [.perform c'.operation]⟩ := by simp [alone, Roster.get, Call.taskAt]
    have halone : (alone t q (c'.taskAt (.opening c')) events).tasks.othersOutside t = true := by
      simp [alone, Roster.othersOutside]
    rw [advance_of_perform _ hget, halone]
    exact congrArg _ (Session.start_operation q c')
  | phase p =>
    have hget : (alone t q (c.taskAt (.phase p)) events).tasks.get t =
        ⟨.inside c.operation ⟨c.purpose, p⟩, []⟩ := by simp [alone, Roster.get, Call.taskAt]
    rw [advance_of_inside _ hget]
    rfl

end World

namespace Case

variable {t : Int} {q q' q₁ : Queue α} {c : Call α} {spot : Spot α} {stop : Stop α}
  {events : List (Event (Operation α) (Answer α))} {wake : Wake}

/-- A task that is alone and next in line. -/
def running (wake : Wake) (t : Int) (q : Queue α) (x : Task (Operation α) (Job α))
    (events : List (Event (Operation α) (Answer α))) : Tasks α :=
  ⟨.alone t q x events, [t], [], wake⟩

/-- A task that is alone and whose call has come to a stop. -/
def stopped (wake : Wake) (t : Int) (q : Queue α) (c : Call α)
    (events : List (Event (Operation α) (Answer α))) : Stop α → Tasks α
  | .through o =>
    ⟨.alone t q .free (⟨t, .completed c.operation (c.answer o)⟩ :: events), [], [], wake⟩
  | .waits side p => ⟨.alone t q (c.taskAt (.phase p)) events, [], [(side, t)], wake⟩

/-- What a section of a call comes to if it is made by a task that is alone.  Nobody else is there
to be woken. -/
def turned (wake : Wake) (t : Int) (c : Call α)
    (events : List (Event (Operation α) (Answer α))) : Section α → Tasks α
  | (q, .go p) | (q, .signal _ p) => running wake t q (c.taskAt (.phase p)) events
  | (q, .wait side p) => stopped wake t q c events (.waits side p)
  | (q, .finish o) => running wake t q .free (⟨t, .completed c.operation (c.answer o)⟩ :: events)

theorem tick_running (hspot : ∀ c', spot = .opening c' → c' = c) :
    (running wake t q (c.taskAt spot) events).tick Session.machine =
      turned wake t c events (q.sectionAt spot) := by
  rw [RunQueue.tick_of_ready _ rfl, running, World.advance_alone hspot]
  obtain ⟨q₁, move⟩ := q.sectionAt spot
  rw [World.settleMove_alone]
  cases move <;> rfl

/-- **After some turns, a call has come to its stop.** -/
theorem exists_run (h : q.Runs spot q' stop) (hspot : ∀ c', spot = .opening c' → c' = c) :
    ∃ n, (running wake t q (c.taskAt spot) events).run Session.machine n =
      stopped wake t q' c events stop := by
  have hready (q : Queue α) (x : Task (Operation α) (Job α))
      (events : List (Event (Operation α) (Answer α))) :
      (running wake t q x events).ready ≠ [] := List.cons_ne_nil t []
  induction h with
  | through h =>
    -- with the call over, the task takes one more turn to find that there is nothing to do
    refine ⟨2, ?_⟩
    rw [RunQueue.run_of_ready_ne (hready _ _ _), tick_running hspot, h, turned,
      RunQueue.run_of_ready_ne (hready _ _ _)]
    simp [RunQueue.run, RunQueue.tick, running, World.alone, World.advance, Roster.get, Task.free,
      RunQueue.requeue, stopped]
  | waits h =>
    refine ⟨1, ?_⟩
    rw [RunQueue.run_of_ready_ne (hready _ _ _), tick_running hspot, h]
    rfl
  | go h _ ih | signal h _ ih =>
    obtain ⟨n, hn⟩ := ih fun c' hc => by cases hc
    refine ⟨n + 1, ?_⟩
    rw [RunQueue.run_of_ready_ne (hready _ _ _), tick_running hspot, h]
    exact hn

/-! ## Rounds of one call -/

/-- The round in which a task is told to make a call. -/
def roundOf (t : Int) (c : Call α) : List (Assignment (Operation α)) :=
  [⟨t, [.perform c.operation]⟩]

/-- Nobody has anything to do, and only task `t` ever had. -/
def Resting (t : Int) (s : Tasks α) : Prop :=
  s.world.shared.handles = .empty ∧ (s.world.tasks = [] ∨ s.world.tasks = [(t, .free)]) ∧
    s.ready = [] ∧ s.waiting = []

/-- Only task `t` ever had anything to do, and it has not finished, but cannot run. -/
def Stuck (t : Int) (s : Tasks α) : Prop :=
  (∃ x, s.world.tasks = [(t, x)] ∧ x.isUnfinished = true) ∧ s.ready = []

variable {s : Tasks α}

theorem resting_stopped (o : Outcome α) : Resting t (stopped wake t q c events (.through o)) :=
  ⟨rfl, .inr rfl, rfl, rfl⟩

theorem stuck_stopped (side : Side) (p : Phase α) :
    Stuck t (stopped wake t q c events (.waits side p)) :=
  ⟨⟨_, rfl, rfl⟩, rfl⟩

/-- A call that is made while nobody else has anything to do comes to its stop. -/
theorem carryOut_resting (h : Resting t s) (c : Call α)
    (hready : (s.carryOut Session.machine (roundOf t c)).ready = [])
    (hr : s.world.shared.queue.Runs (.opening c) q' stop) :
    s.carryOut Session.machine (roundOf t c) = stopped s.wake t q' c s.world.events stop := by
  obtain ⟨⟨⟨q, handles⟩, tasks, events⟩, ready, waiting, wake⟩ := s
  obtain ⟨rfl, htasks, rfl, rfl⟩ := h
  have hgiven : (roundOf t c).foldl RunQueue.handOut ⟨⟨⟨q, .empty⟩, tasks, events⟩, [], [], wake⟩ =
      running wake t q (c.taskAt (.opening c)) events := by
    rcases htasks with rfl | rfl
    · simp [roundOf, RunQueue.handOut, Roster.get, Roster.set, Task.free, Task.isUnfinished,
        World.place, running, World.alone, Call.taskAt]
    · simp [roundOf, RunQueue.handOut, Roster.get, Roster.set, Task.free, Task.isUnfinished,
        World.place, running, World.alone, Call.taskAt]
  have hspot (c' : Call α) (hc : Spot.opening c = .opening c') : c' = c := by
    cases hc
    rfl
  obtain ⟨n, hn⟩ : ∃ n, (running wake t q (c.taskAt (.opening c)) events).run Session.machine n =
    stopped wake t q' c events stop := exists_run hr hspot
  rw [RunQueue.carryOut, hgiven] at hready ⊢
  rw [RunQueue.settle] at hready ⊢
  rw [← hn]
  refine RunQueue.run_eq_of_ready hready ?_
  rw [hn]
  cases stop <;> rfl

/-- A task that waits is told in vain. -/
theorem carryOut_stuck (h : Stuck t s) (c : Call α) :
    s.carryOut Session.machine (roundOf t c) = { s with world := s.world.report t .busy } := by
  obtain ⟨⟨x, htasks, hx⟩, hready⟩ := h
  have hgiven : (roundOf t c).foldl RunQueue.handOut s =
      { s with world := s.world.report t .busy } := by
    simp [roundOf, RunQueue.handOut, htasks, Roster.get, hx]
  rw [RunQueue.carryOut, hgiven]
  exact RunQueue.run_of_ready (s := { s with world := s.world.report t .busy }) hready _

end Case

/-! ## Reports -/

/-- A report but for the log. -/
def Report.silent (r : Report α) : Report α := { r with log := [] }

namespace Case

variable {t : Int} {before after : Tasks α} {s : Reference α} {phases : Multiset (Phase α)}

/-- What is seen of a queue is what is seen of a reference that it mirrors. -/
theorem silent_report {what : List (Occurrence (Operation α) (Answer α))} {waits : Bool}
    (hm : Queue.Mirrors before.world.shared.queue.history after.world.shared.queue phases s)
    (hevents : after.world.events = (what.map (Event.mk t)).reverse ++ before.world.events)
    (hblocked : after.world.tasks.unfinished = if waits then [t] else []) :
    (report before after).silent = s.report t what waits := by
  obtain ⟨new, hhistory, hshown⟩ := hm.hooks.shown_eq
  rw [report, RunQueue.roundSince, hevents, newSince_append, List.reverse_reverse, hblocked,
    hhistory, newSince_append, Queue.shownIn, List.filterMap_reverse, ← Queue.shownIn, hshown,
    hm.len_eq, hm.producers_eq]
  rfl

/-- Once a call waits, every further one finds the task busy, and nothing changes. -/
theorem reports_stuck {s : Tasks α} {s₀ : Reference α} (h : Stuck t s)
    (hm : Queue.Mirrors s.world.shared.queue.history s.world.shared.queue phases s₀)
    (calls : List (Call α)) :
    (reports s (calls.map (roundOf t))).map Report.silent =
      calls.map fun _ => s₀.report t [.busy] true := by
  induction calls generalizing s with
  | nil => rfl
  | cons c calls ih =>
    have hcarry := carryOut_stuck h c
    obtain ⟨⟨x, htasks, hx⟩, hready⟩ := h
    rw [List.map_cons, reports, List.map_cons, List.map_cons, hcarry]
    congr 1
    · refine silent_report hm rfl ?_
      simp [World.report, htasks, Roster.unfinished, hx]
    · exact ih ⟨⟨x, htasks, hx⟩, hready⟩ hm

/-- **Call after call, the queue and the reference give the same reports.** -/
theorem reports_eq {s : Tasks α} {s₀ : Reference α} {calls : List (Call α)} (h : Resting t s)
    (hrest : s.AtRest Session.supply) (hw : s.world.Regular)
    (hm : Queue.Mirrors s.world.shared.queue.history s.world.shared.queue 0 { s₀ with shown := [] })
    (hcalm : ∀ stage hook, Call.install stage hook ∈ calls → hook.NeverPanics) :
    (reports s (calls.map (roundOf t))).map Report.silent =
      Reference.reports s.world.shared.queue.capacity t s₀ calls := by
  induction calls generalizing s s₀ with
  | nil => rfl
  | cons c calls ih =>
    obtain ⟨hrest', hw'⟩ := hrest.carryOut (fun w x hw => hw.happen x)
      (fun w hw => ⟨hw.sorted, hw.winding, hw.minding⟩) hw (roundOf t c)
    obtain ⟨q', stop, s', hr, hm', hcap, hcall⟩ := Queue.Mirrors.call (c := c) hm
      fun stage hook hc => hcalm stage hook (hc ▸ List.mem_cons_self)
    have hcarry := carryOut_resting h c hrest'.ready_eq hr
    rw [hcarry] at hrest' hw'
    rw [List.map_cons, reports, List.map_cons, hcarry, Reference.reports, hcall]
    cases stop with
    | through o =>
      congr 1
      · exact silent_report hm' rfl rfl
      · rw [← hcap]
        exact ih (resting_stopped o) hrest' hw' hm'.renew fun stage hook hc =>
          hcalm stage hook (List.mem_cons_of_mem _ hc)
    | waits side p =>
      congr 1
      · exact silent_report hm' rfl rfl
      · exact reports_stuck (stuck_stopped side p) hm'.renew calls

variable {c : Case α} {queue : Queue α} {calls : List (Call α)}

/-- A queue that is built looks like a fresh reference. -/
theorem mirrors_of_build (hbuild : c.builder.1.build (.blank c.detail) = .ok queue)
    (hmax : queue.capacity ≤ Semaphore.maxPermits)
    (hcalm : ∀ stage hook, queue.hook? stage = some hook → hook.NeverPanics) :
    Queue.Mirrors queue.history queue 0 (.fresh queue.onEnqueue queue.onDequeue) := by
  obtain ⟨hpos, hfresh⟩ := Builder.eq_fresh_of_build hbuild
  have hm : Queue.Mirrors [] _ 0 (.fresh queue.onEnqueue queue.onDequeue) :=
    Queue.mirrors_fresh hpos hmax (.blank c.detail) rfl fun hook hhook =>
      hhook.elim (hcalm .enqueue hook) (hcalm .dequeue hook)
  rw [← hfresh] at hm
  have hhistory : queue.history = [] := by rw [hfresh]; rfl
  rw [hhistory]
  exact hm

/-- **A queue that is used by a single task behaves like a list.** -/
theorem refines_reference (hbuild : c.builder.1.build (.blank c.detail) = .ok queue)
    (hmax : queue.capacity ≤ Semaphore.maxPermits) (hrounds : c.rounds = calls.map (roundOf t))
    (hhooks : ∀ stage hook, queue.hook? stage = some hook → hook.NeverPanics)
    (hcalm : ∀ stage hook, Call.install stage hook ∈ calls → hook.NeverPanics) :
    ∃ reports, c.run.result = .ok reports ∧ reports.map Report.silent =
      Reference.reports queue.capacity t (.fresh queue.onEnqueue queue.onDequeue) calls := by
  obtain ⟨hrest, hw, -⟩ := atRest_afterRounds hbuild hmax []
  refine ⟨reports (c.initial queue) c.rounds, by rw [run, hbuild], ?_⟩
  rw [hrounds]
  exact reports_eq ⟨rfl, .inl rfl, rfl, rfl⟩ hrest hw (mirrors_of_build hbuild hmax hhooks) hcalm

/-- Rejects every second entry that it is shown. -/
def secondTimeUnlucky : Hook Nat :=
  .ofVerdict fun shown _ => if shown.length % 2 = 1 then .reject (.plain "unlucky") else .accept

/-- A single slot is filled and emptied, an item is rejected, and the marker is, when it is put
back; so the next call waits, and the one after it is made in vain. -/
def unluckyCalls : List (Call Nat) :=
  [.install .enqueue secondTimeUnlucky, .register, .enqueue 5, .tryEnqueue 6, .dequeue, .enqueue 7,
    .deregister, .dequeue, .dequeue, .enqueue 8]

/-- The case in which a task makes these calls. -/
def unlucky : Case Nat where
  capacity := 1
  build := none
  wake := .later
  detail := none
  rounds := unluckyCalls.map (roundOf 4)

theorem refines_reference_unlucky :
    (∃ queue, unlucky.builder.1.build (.blank unlucky.detail) = .ok queue ∧
      (∀ stage hook, queue.hook? stage = some hook → hook.NeverPanics)) ∧
    (∀ stage hook, Call.install stage hook ∈ unluckyCalls → hook.NeverPanics) ∧
    ∃ reports, unlucky.run.result = .ok reports ∧ reports.map Report.silent =
      Reference.reports 1 4 (.fresh none none) unluckyCalls ∧
      (reports.map Report.silent).map (fun r => (r.len, r.producers, r.round.blocked)) =
        [(0, 0, []), (0, 1, []), (1, 1, []), (1, 1, []), (0, 1, []), (0, 1, []), (1, 0, []),
          (0, 0, []), (0, 0, [4]), (0, 0, [4])] := by
  have hbuild : unlucky.builder.1.build (.blank unlucky.detail) =
      .ok (.fresh 1 none none (.blank none)) := rfl
  have hhooks (stage : Stage) (hook : Hook Nat)
      (h : (Queue.fresh 1 none none (.blank none)).hook? stage = some hook) : hook.NeverPanics := by
    cases stage <;> cases h
  have hcalm (stage : Stage) (hook : Hook Nat) (h : Call.install stage hook ∈ unluckyCalls) :
      hook.NeverPanics := by
    obtain ⟨rfl, rfl⟩ : stage = .enqueue ∧ hook = secondTimeUnlucky := by
      simpa [unluckyCalls] using h
    intro seen entry text
    by_cases hodd : seen.length % 2 = 1 <;> simp [secondTimeUnlucky, Hook.ofVerdict, hodd]
  obtain ⟨reports, hrun, heq⟩ := refines_reference hbuild (by decide) rfl hhooks hcalm
  refine ⟨⟨_, hbuild, hhooks⟩, hcalm, reports, hrun, heq, ?_⟩
  rw [heq]
  decide +kernel

end Case

end BoundedQueue
