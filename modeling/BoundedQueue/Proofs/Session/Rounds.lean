import BoundedQueue.Proofs.Queue.Work
import BoundedQueue.Proofs.Schedule.Waiting
import BoundedQueue.Proofs.Session.Jobs
import BoundedQueue.Session.Case

/-!
# Rounds of work on a queue

The run queue needs two things of the operations that it schedules: that they come to an end, and
that they take, return and wait for permits as they say.  The sections of calls do both in every
`Regular` world, whatever fails or panics.  So a case is always at rest between two rounds.

## What is here

* `Queue.supply` presents the permits of a queue to the run queue: how many there are of either
  kind, and which of them a call waits for, or was woken for (`Spot.awaits`).  `Session.supply` does
  so for operations.
* `Queue.Passage.minds` says that a passage minds the permits.  This is a matter of the passage
  alone but for a clearing, which sets permits without waking anybody; there it is needed that
  nobody waits then, because nobody else is inside an operation.  A panic of the logger makes no
  difference, since a section with a remark neither returns a permit nor waits
  (`Passage.quiet_of_remark`).
* `World.Regular.winding` says that no section leaves more work behind than it finds, and
  `World.Regular.minding` that operations mind the permits.  These are the two hypotheses of the
  theory of rounds.
* `Case.atRest_afterRounds` is what follows for cases: between two rounds nobody is in line, and
  whoever waits does so for a permit of which there is none.  `Case.orderly_iterate` says what holds
  at every point of a round.

The order of the last part is that of a case: a queue that is built is fresh
(`Builder.eq_fresh_of_build`), rounds are runs, and so the world after any number of rounds is
regular.
-/

set_option autoImplicit false

namespace BoundedQueue

variable {α : Type}

/-! ## Permits as a supply -/

/-- What a call at a phase waits for, or was woken for. -/
def Phase.awaits : Phase α → Option Side
  | .awaitFree _ => some .free
  | .awaitFilled => some .filled
  | _ => none

/-- What a call at a spot waits for; at its opening, nothing. -/
def Spot.awaits : Spot α → Option Side
  | opening _ => none
  | phase p => p.awaits

theorem Spot.awaits_of_asksFree {spot : Spot α} {errand : Errand α}
    (h : spot.asksFree = some errand) : spot.awaits = none ∨ spot.awaits = some .free := by
  cases spot with
  | opening => exact .inl rfl
  | phase p =>
    rcases Spot.of_asksFree h (Multiset.mem_singleton_self p) with rfl | rfl
    · exact .inl rfl
    · exact .inr rfl

theorem Spot.awaits_of_asksFilled {spot : Spot α} (h : spot.asksFilled = true) :
    spot.awaits = none ∨ spot.awaits = some .filled := by
  cases spot with
  | opening => exact .inl rfl
  | phase p =>
    rcases Spot.of_asksFilled h (Multiset.mem_singleton_self p) with rfl | rfl
    · exact .inl rfl
    · exact .inr rfl

namespace Queue

/-- The permits of a queue, for the calls on it. -/
def supply : Supply (Queue α) (Phase α) Side where
  permits q side := (q.semaphore side).permits
  awaits := Phase.awaits

variable {q q' : Queue α} {spot : Spot α} {r : Option Remark}
  {move : Move (Phase α) Side (Outcome α)}

/-- Hooks and their notes are no business of the semaphores. -/
theorem permits_of_consult {stage : Stage} {entry : Entry α} {v : Verdict} {q₁ : Queue α}
    (h : q.consult stage entry = (v, q₁)) : q₁.free = q.free ∧ q₁.filled = q.filled := by
  obtain ⟨onE, onD, notes, -, rfl⟩ := exists_of_consult h
  exact ⟨rfl, rfl⟩

theorem permits_le_of_eq (hf : q'.free = q.free) (hg : q'.filled = q.filled) (i : Side) :
    supply.permits q' i + (if (none : Option Side) = some i then 1 else 0) ≤
      supply.permits q i := by
  cases i with
  | free => exact Nat.le_of_eq (congrArg Semaphore.permits hf)
  | filled => exact Nat.le_of_eq (congrArg Semaphore.permits hg)

/-- **A passage minds the permits**: it waits only where there is none, wakes for every permit that
it returns, and takes one if it was waiting.  A clearing does not, but then nobody waits. -/
theorem Passage.minds (h : Passage q spot r q' move) (hspot : spot ≠ .opening .clear) :
    supply.Minds spot.awaits q q' move := by
  cases h with
  | takeFree hs hp =>
    refine .go rfl fun i => ?_
    rcases Spot.awaits_of_asksFree hs with ha | ha <;> cases i <;> simp [ha, supply, semaphore]
    omega
  | takeFilled hs hp =>
    refine .go rfl fun i => ?_
    rcases Spot.awaits_of_asksFilled hs with ha | ha <;> cases i <;> simp [ha, supply, semaphore]
    omega
  | waitFree hs ha h0 =>
    refine .wait rfl h0 (fun i hi => ?_) fun _ => Nat.le_refl _
    rcases Spot.awaits_of_asksFree hs with ha | ha <;> rw [ha] at hi <;> cases hi
    rfl
  | waitFilled hs h0 =>
    refine .wait rfl h0 (fun i hi => ?_) fun _ => Nat.le_refl _
    rcases Spot.awaits_of_asksFilled hs with ha | ha <;> rw [ha] at hi <;> cases hi
    rfl
  | refundFree | publish | refundFilled =>
    exact .signal rfl rfl fun i => by cases i <;> simp [supply, semaphore]
  | vacate find =>
    exact .signal (by cases find <;> rfl) rfl fun i => by cases i <;> simp [supply, semaphore]
  | storePanicked hb hc | fetchPanicked hb hr hc =>
    obtain ⟨hf, hg⟩ := permits_of_consult hc
    exact .finish (permits_le_of_eq hf hg)
  | storeRejected hb hc | fetchRejected hb hr hc | push hb hc hr | popItem hb hc hr
    | popAbsorbed hb hc hr | popConcluded hb hc hr =>
    obtain ⟨hf, hg⟩ := permits_of_consult hc
    exact .go rfl (permits_le_of_eq hf hg)
  | popBlind hb hc hr =>
    obtain ⟨hf, hg⟩ := permits_of_consult hc
    exact .finish (permits_le_of_eq hf hg)
  | passOn hp => exact .go rfl fun i => by cases i <;> simp [supply, semaphore, Spot.awaits,
      Phase.awaits]
  | storeRefused | lower => exact .go rfl (permits_le_of_eq rfl rfl)
  | @install stage => exact .finish (by cases stage <;> exact permits_le_of_eq rfl rfl)
  | clear | clearHalfway | clearRefused => exact absurd rfl hspot
  | _ => exact .finish (permits_le_of_eq rfl rfl)

/-- A passage with a remark returns no permit and does not wait. -/
theorem Passage.quiet_of_remark (h : Passage q spot r q' move) (hr : r ≠ none) :
    (∃ next, move = .go next) ∨ ∃ o, move = .finish o := by
  cases h with
  | storeRefused | storeRejected | fetchRejected | passOn | lower => exact .inl ⟨_, rfl⟩
  | settleFarewell | fetchRefused | fetchEmpty | popBlind | leaveOut | raiseRefused | raise
    | lowerRefused | lowerUnmatched | installRefused | clearRefused | clearHalfway =>
    exact .inr ⟨_, rfl⟩
  | _ => exact absurd rfl hr

/-- Every section minds the permits, also when the logger panics in it. -/
theorem sectionAt_minds (h : q.Workable spot) (hspot : spot ≠ .opening .clear) :
    supply.Minds spot.awaits q (q.sectionAt spot).1 (q.sectionAt spot).2 := by
  obtain ⟨r, q', move, hp, hsec⟩ := exists_passage h
  have hminds := hp.minds hspot
  rw [hsec]
  rcases q'.remarked_cases move r with ⟨log, hr⟩ | ⟨log, b, p, hne, hr⟩
  · rw [hr]
    cases hminds with
    | go hk hle => exact .go hk hle
    | wait hk h0 ha hle => exact .wait hk h0 ha hle
    | signal hk ha hle => exact .signal hk ha hle
    | finish hle => exact .finish hle
  · rw [hr]
    rcases hp.quiet_of_remark hne with ⟨next, rfl⟩ | ⟨o, rfl⟩
    · cases hminds with
      | go hk hle => exact .finish hle
    · cases hminds with
      | finish hle => exact .finish hle

/-- A clearing is over at once. -/
theorem finish_of_clear (h : q.Workable (.opening .clear)) :
    ∃ o, (q.begin .clear).2 = .finish o := by
  obtain ⟨r, q', move, hp, hsec⟩ := exists_passage h
  obtain ⟨⟨o, rfl⟩, -⟩ := hp.clear_cases
  have hbegin : q.begin .clear = q'.remarked (.finish o) r := hsec
  rw [hbegin]
  rcases q'.remarked_cases (.finish o) r with ⟨log, hr⟩ | ⟨log, b, p, -, hr⟩
  · exact ⟨o, by rw [hr]⟩
  · exact ⟨_, by rw [hr]⟩

end Queue

/-! ## Sections of operations -/

namespace Session

/-- The permits of the queue, for the operations on it. -/
def supply : Supply (Session α) (Job α) Side where
  permits s := Queue.supply.permits s.queue
  awaits job := job.phase.awaits

variable {s s' : Session α} {purpose : Purpose α} {r : Section α}

/-- A section costs an operation what it costs the call. -/
theorem cost_enter (s : Session α) (purpose : Purpose α) (r : Section α) :
    machine.stock (s.enter purpose r).1 + machine.cost (s.enter purpose r).2 ≤
      Queue.slotWork * r.1.len + Queue.workAfter r.2 := by
  obtain ⟨queue, move⟩ := r
  cases move with
  | go | wait | signal => exact Nat.le_refl _
  | finish o =>
    have hpos := Queue.workAfter_pos (.finish o : Move (Phase α) Side (Outcome α))
    have hstock : machine.stock (s.enter purpose (queue, .finish o)).1 =
        Queue.slotWork * queue.len := by
      obtain ⟨log, hq⟩ := conclude_queue { s with queue := queue } o purpose
      show Queue.slotWork * (conclude { s with queue := queue } o purpose).1.queue.len = _
      rw [hq]
      rfl
    rw [hstock, enter]
    rcases conclude_move { s with queue := queue } o purpose with
      ⟨a, ha⟩ | ⟨left, left', got, b, -, rfl, -, ha⟩
    · rw [ha]
      exact Nat.add_le_add_left hpos _
    · rw [ha]
      exact Nat.le_refl _

/-- An operation minds the permits as its call does. -/
theorem minds_enter {awaited : Option Side} (h : Queue.supply.Minds awaited s.queue r.1 r.2)
    (s' : Session α) (purpose : Purpose α) :
    supply.Minds awaited s (s'.enter purpose r).1 (s'.enter purpose r).2 := by
  obtain ⟨queue, move⟩ := r
  cases h with
  | go hk hp => exact .go hk hp
  | wait hk h0 ha hp => exact .wait hk h0 ha hp
  | signal hk ha hp => exact .signal hk ha hp
  | @finish o hp =>
    obtain ⟨log, hq⟩ := conclude_queue { s' with queue := queue } o purpose
    have hp : ∀ i, supply.permits (s'.enter purpose (queue, .finish o)).1 i +
        (if awaited = some i then 1 else 0) ≤ supply.permits s i := by
      intro i
      show Queue.supply.permits (conclude { s' with queue := queue } o purpose).1.queue i + _ ≤ _
      rw [hq]
      exact hp i
    rcases hm : s'.enter purpose (queue, .finish o) with ⟨s₁, move⟩
    rw [hm] at hp
    rcases conclude_move { s' with queue := queue } o purpose with
      ⟨a, ha⟩ | ⟨left, left', got, b, -, rfl, -, ha⟩
    · rw [enter] at hm
      rw [hm] at ha
      obtain rfl := ha
      exact .finish hp
    · rw [enter] at hm
      rw [hm] at ha
      obtain rfl := ha
      exact .go rfl hp

/-- A plain call is the whole operation. -/
theorem finish_of_plain (s : Session α) {o : Outcome α} (h : r.2 = .finish o) :
    ∃ a, (s.enter .plain r).2 = .finish a := by
  obtain ⟨queue, move⟩ := r
  obtain rfl : move = .finish o := h
  exact ⟨_, rfl⟩

end Session

/-! ## Regular worlds -/

namespace World

variable {w : Traffic α}

/-- Nothing stands in the way of the opening of a call. -/
theorem Regular.workable_opening (h : w.Regular) (c : Call α) :
    w.shared.queue.Workable (.opening c) where
  free := h.within.freeSound
  filled := h.within.filledSound
  freeRoom := by rintro (hb | hb) <;> cases hb
  filledRoom := by rintro (hb | hb) <;> cases hb
  ringRoom := nofun

theorem Regular.workable_phase (h : w.Regular) {t : Int} {op : Operation α} {job : Job α}
    {todo : List (Instruction (Operation α))} (ht : w.tasks.get t = ⟨.inside op job, todo⟩) :
    w.shared.queue.Workable (.phase job.phase) := by
  have he : w.engagement? t = some ⟨op, job.purpose, .phase job.phase, todo⟩ := by
    rw [engagement?, ht]
  exact h.workable he

/-- **Operations come to an end**: no section leaves more work behind than it finds. -/
theorem Regular.winding (h : w.Regular) : w.Winding Session.machine where
  start alone op := by
    show Session.machine.stock (w.shared.start alone op).1 +
      Session.machine.cost (w.shared.start alone op).2 ≤ _
    rcases w.shared.start_cases alone op with ⟨purpose, c, handles, -, hs⟩ | ⟨log, handles, a, hs⟩
    · rw [hs]
      exact (Session.cost_enter _ purpose _).trans
        (Queue.sectionAt_work_le (h.workable_opening c) h.within.ringSound)
    · rw [hs]
      exact Nat.add_le_add_left (Nat.le_add_left 1 11) _
  resume t op job todo ht :=
    (Session.cost_enter w.shared job.purpose _).trans
      (Queue.sectionAt_work_le (h.workable_phase ht) h.within.ringSound)

/-- **Operations mind the permits.** -/
theorem Regular.minding (h : w.Regular) : w.Minding Session.machine Session.supply where
  start t op todo ht := by
    show Session.supply.Minds none w.shared (w.shared.start (w.tasks.othersOutside t) op).1
        (w.shared.start (w.tasks.othersOutside t) op).2 ∨
      w.tasks.othersOutside t = true ∧
        ∃ a, (w.shared.start (w.tasks.othersOutside t) op).2 = .finish a
    rcases w.shared.start_cases (w.tasks.othersOutside t) op with
      ⟨purpose, c, handles, ho, hs⟩ | ⟨log, handles, a, hs⟩
    · have hwork := h.workable_opening c
      rw [hs]
      by_cases hc : c = .clear
      · subst hc
        refine .inr ⟨ho.alone_of_clear, ?_⟩
        obtain ⟨o, hfinish⟩ := Queue.finish_of_clear hwork
        obtain rfl : purpose = .plain := by cases ho; rfl
        exact Session.finish_of_plain _ hfinish
      · exact .inl (Session.minds_enter
          (Queue.sectionAt_minds hwork fun heq => hc (by cases heq; rfl)) _ purpose)
    · rw [hs]
      exact .inl (.finish (Queue.permits_le_of_eq rfl rfl))
  resume t op job todo ht :=
    Session.minds_enter (Queue.sectionAt_minds (h.workable_phase ht) nofun) w.shared job.purpose

end World

/-! ## Cases -/

/-- A queue that is built has at least one slot and is as good as new. -/
theorem Builder.eq_fresh_of_build {b : Builder α} {log : Logbook} {queue : Queue α}
    (h : b.build log = .ok queue) : 0 < queue.capacity ∧
      queue = .fresh queue.capacity queue.onEnqueue queue.onDequeue log := by
  rw [build] at h
  split at h
  · cases h
  · next hne =>
    cases h
    exact ⟨Nat.pos_of_ne_zero hne, rfl⟩

namespace Case

/-- A case whose queue is refused comes to the refusal. -/
theorem run_of_error {c : Case α} {refusal : Error × Logbook}
    (hbuild : c.builder.1.build (.blank c.detail) = .error refusal) :
    c.run = ⟨c.build.map fun _ => c.builder.2,
      .error (refusal.1, refusal.2.records.reverse)⟩ := by
  rw [run, hbuild]

/-- A case whose queue is built comes to the reports of its rounds. -/
theorem run_of_ok {c : Case α} {queue : Queue α}
    (hbuild : c.builder.1.build (.blank c.detail) = .ok queue) :
    c.run = ⟨c.build.map fun _ => c.builder.2, .ok (reports (c.initial queue) c.rounds)⟩ := by
  rw [run, hbuild]

/-- The run queue after rounds of work. -/
def afterRounds (s : Tasks α) (rounds : List (List (Assignment (Operation α)))) : Tasks α :=
  rounds.foldl (RunQueue.carryOut Session.machine) s

theorem afterRounds_concat (s : Tasks α) (rounds : List (List (Assignment (Operation α))))
    (work : List (Assignment (Operation α))) :
    afterRounds s (rounds ++ [work]) = (afterRounds s rounds).carryOut Session.machine work := by
  rw [afterRounds, List.foldl_append]
  rfl

variable {c : Case α} {queue : Queue α}

/-- **Between two rounds a case is at rest**, whatever failed or panicked: nobody is in line, and
whoever waits does so for something of which there is nothing. -/
theorem atRest_afterRounds (hbuild : c.builder.1.build (.blank c.detail) = .ok queue)
    (hmax : queue.capacity ≤ Semaphore.maxPermits)
    (rounds : List (List (Assignment (Operation α)))) :
    (afterRounds (c.initial queue) rounds).AtRest Session.supply ∧
      (afterRounds (c.initial queue) rounds).world.Regular ∧
      ∃ hs, (afterRounds (c.initial queue) rounds).world =
        (Traffic.fresh queue.capacity queue.onEnqueue queue.onDequeue (.blank c.detail)).after
          Session.machine hs := by
  obtain ⟨hpos, hfresh⟩ := Builder.eq_fresh_of_build hbuild
  have hregular (hs : List (Happening (Operation α))) : ((Traffic.fresh queue.capacity
      queue.onEnqueue queue.onDequeue (.blank c.detail)).after Session.machine hs).Regular :=
    World.regular_after _ _ _ hpos hmax hs
  have hrun (rounds : List (List (Assignment (Operation α)))) :
      ∃ hs, (afterRounds (c.initial queue) rounds).world = (Traffic.fresh queue.capacity
        queue.onEnqueue queue.onDequeue (.blank c.detail)).after Session.machine hs := by
    rw [Traffic.fresh, ← hfresh]
    exact RunQueue.exists_run_rounds Session.machine (c.initial queue) rounds
  have hworld (rounds : List (List (Assignment (Operation α)))) :
      (afterRounds (c.initial queue) rounds).world.Regular := by
    obtain ⟨hs, h⟩ := hrun rounds
    rw [h]
    exact hregular hs
  refine ⟨?_, hworld rounds, hrun rounds⟩
  induction rounds using List.reverseRecOn with
  | nil => exact RunQueue.atRest_ofShared _ _
  | append_singleton rounds work ih =>
    rw [afterRounds_concat]
    exact (ih.carryOut (fun _ x hw => hw.happen x)
      (fun _ hw => ⟨hw.sorted, hw.winding, hw.minding⟩) (hworld rounds) work).1

/-- There is order at every point of a round, too. -/
theorem orderly_iterate (hbuild : c.builder.1.build (.blank c.detail) = .ok queue)
    (hmax : queue.capacity ≤ Semaphore.maxPermits)
    (rounds : List (List (Assignment (Operation α)))) (work : List (Assignment (Operation α)))
    (n : Nat) : ((RunQueue.tick Session.machine)^[n]
      (work.foldl RunQueue.handOut (afterRounds (c.initial queue) rounds))).Orderly
        Session.supply := by
  obtain ⟨hrest, hw, -⟩ := atRest_afterRounds hbuild hmax rounds
  exact (hrest.orderly_iterate (fun _ x hw => hw.happen x) (fun _ hw => hw.minding) hw work n).1

end Case

end BoundedQueue
