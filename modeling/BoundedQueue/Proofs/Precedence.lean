import BoundedQueue.Proofs.Liveness
import BoundedQueue.Proofs.Schedule.HandOver

/-!
# Nobody is overtaken

If a task that is woken has its turn at once, a permit that is returned while somebody waits goes
from the task that returns it to the one that has waited for longest, and nobody else ever sees it.
This holds of both permits of a queue and of those of a single semaphore, provided that nobody sets
their number, which wakes nobody.

* The theory of run queues says what follows if the operations of a machine grant what they owe: who
  was woken for a permit and finds one takes it, and nobody is woken but for a permit that was just
  returned.
* `Queue.sectionAt_grants` and `World.Regular.granting` say so of calls on a queue and of the
  operations that are made of calls, also when the logger panics in them.
* `Session.Passage.grants` says so of requests to a semaphore, with one exception: a release that is
  one too many.  It finds the largest number of permits, which is not zero, so that nobody waits;
  from then on every request is refused, so that nobody will (`unawaited_tick`).

`no_overtaking` is the result for both kinds of cases.
-/

set_option autoImplicit false

namespace BoundedQueue

variable {α : Type}

/-! ## Queues -/

namespace Queue

variable {q q' : Queue α} {spot : Spot α} {r : Option Remark}
  {move : Move (Phase α) Side (Outcome α)} {i : Side}

/-- A call that waits for a permit asks for one of that kind. -/
theorem asks_of_awaits (h : spot.awaits = some i) :
    i = .free ∧ (∃ errand, spot.asksFree = some errand) ∨ i = .filled ∧ spot.asksFilled = true := by
  rcases spot with c | p
  · cases h
  · cases p with
    | awaitFree errand =>
      cases h
      exact .inl ⟨rfl, errand, rfl⟩
    | awaitFilled =>
      cases h
      exact .inr ⟨rfl, rfl⟩
    | _ => cases h

/-- A call that was woken and finds a permit takes this one. -/
theorem Passage.permits_succ (h : Passage q spot r q' move) (ha : spot.awaits = some i)
    (hp : 0 < supply.permits q i) : supply.permits q' i + 1 = supply.permits q i := by
  rcases asks_of_awaits ha with ⟨rfl, errand, hs⟩ | ⟨rfl, hs⟩
  · rcases h.of_asksFree hs with ⟨-, rfl, -⟩ | ⟨h0, -⟩
    · exact Nat.sub_add_cancel hp
    · exact absurd h0 hp.ne'
  · rcases h.of_asksFilled hs with ⟨-, rfl, -⟩ | ⟨h0, -⟩
    · exact Nat.sub_add_cancel hp
    · exact absurd h0 hp.ne'

/-- A call wakes only for a permit that it has just returned. -/
theorem Passage.permits_pos {on : Side} {next : Phase α}
    (h : Passage q spot r q' (.signal on next)) : 0 < supply.permits q' on := by
  cases h <;> exact Nat.succ_pos _

/-- **A section grants what it owes**, also when the logger panics in it. -/
theorem sectionAt_grants (h : q.Workable spot) :
    supply.Grants spot.awaits q (q.sectionAt spot).1 (q.sectionAt spot).2 := by
  obtain ⟨r, q', move, hp, hsec⟩ := exists_passage h
  rw [hsec]
  rcases q'.remarked_cases move r with ⟨log, hr⟩ | ⟨log, b, p, -, hr⟩
  · rw [hr]
    refine ⟨fun on next hmove => ?_, fun i ha hpos => hp.permits_succ ha hpos⟩
    simp only at hmove
    rw [hmove] at hp
    exact hp.permits_pos
  · rw [hr]
    exact ⟨nofun, fun i ha hpos => hp.permits_succ ha hpos⟩

end Queue

namespace Session

/-- An operation grants what its call does. -/
theorem grants_enter {s : Session α} {r : Section α} {awaited : Option Side}
    (h : Queue.supply.Grants awaited s.queue r.1 r.2) (s' : Session α) (purpose : Purpose α) :
    supply.Grants awaited s (s'.enter purpose r).1 (s'.enter purpose r).2 := by
  obtain ⟨queue, move⟩ := r
  have htake (after : Session α) (log : Logbook) (hq : after.queue = { queue with log := log })
      (i : Side) (ha : awaited = some i) (hp : 0 < supply.permits s i) :
      supply.permits after i + 1 = supply.permits s i := by
    show Queue.supply.permits after.queue i + 1 = _
    rw [hq]
    exact h.take i ha hp
  cases move with
  | go next => exact ⟨fun _ _ hmove => (nomatch hmove), htake _ queue.log rfl⟩
  | wait on retry => exact ⟨fun _ _ hmove => (nomatch hmove), htake _ queue.log rfl⟩
  | signal on next =>
    refine ⟨fun on' next' hmove => ?_, htake _ queue.log rfl⟩
    cases hmove
    exact h.signal on next rfl
  | finish o =>
    obtain ⟨log, hq⟩ := conclude_queue { s' with queue := queue } o purpose
    refine ⟨fun on next hmove => ?_, htake _ log hq⟩
    rw [enter] at hmove
    rcases conclude_move { s' with queue := queue } o purpose with
      ⟨a, ha⟩ | ⟨left, left', got, b, -, -, -, ha⟩
    · rw [ha] at hmove
      cases hmove
    · rw [ha] at hmove
      cases hmove

end Session

/-- **Operations on a queue grant what they owe.** -/
theorem World.Regular.granting {w : Traffic α} (h : w.Regular) :
    w.Granting Session.machine Session.supply where
  start t op todo ht := by
    show Session.supply.Grants none w.shared (w.shared.start (w.tasks.othersOutside t) op).1
      (w.shared.start (w.tasks.othersOutside t) op).2
    rcases w.shared.start_cases (w.tasks.othersOutside t) op with
      ⟨purpose, c, handles, -, hs⟩ | ⟨log, handles, a, hs⟩
    · rw [hs]
      exact Session.grants_enter (Queue.sectionAt_grants (h.workable_opening c)) _ purpose
    · rw [hs]
      exact ⟨fun _ _ hmove => (nomatch hmove), fun _ ha => (nomatch ha)⟩
  resume t op job todo ht :=
    Session.grants_enter (Queue.sectionAt_grants (h.workable_phase ht)) w.shared job.purpose

/-! ## Single semaphores -/

namespace Semaphore

/-- A section grants what it owes, unless it refuses a permit to a task that was woken for it. -/
theorem Session.Passage.grants {s s' : Session} {spot : Spot} {move : Move Place Unit Answer}
    (h : s.Passage spot s' move) (hs : s.semaphore.poisoned = true → spot.awaits = none) :
    supply.Grants spot.awaits s s' move := by
  cases h with
  | granted ha _ hp => exact ⟨nofun, fun _ _ _ => Nat.sub_add_cancel hp⟩
  | waits ha _ h0 => exact ⟨nofun, fun _ _ hp => absurd h0 hp.ne'⟩
  | refused _ hp =>
    rw [hs hp]
    exact ⟨nofun, nofun⟩
  | released =>
    refine ⟨fun on next _ => Nat.succ_pos _, nofun⟩
  | _ => exact ⟨nofun, nofun⟩

/-- What holds at every point of a case that never sets the number of permits: permits are handed
over, and nobody waits for those of a poisoned semaphore. -/
structure Passed (s : Tasks) : Prop where
  tame : Tame s.world
  direct : s.Direct supply
  unawaited : s.world.shared.semaphore.poisoned = true →
    ∀ t, (s.world.tasks.get t).awaits supply = none

namespace Passed

variable {s : Tasks}

theorem minding (h : Passed s) : s.world.Minding machine supply :=
  h.tame.minding_of_poisoned h.unawaited

theorem granting (h : Passed s) : s.world.Granting machine supply where
  start _ op _ _ := (s.world.shared.passage_sectionAt (.opening op)).grants fun _ => rfl
  resume t op k todo ht := by
    refine (s.world.shared.passage_sectionAt (.place k)).grants fun hs => ?_
    have hnone := h.unawaited hs t
    rwa [ht] at hnone

/-- Where there is a permit and none is being handed over, nobody waits. -/
theorem awaits_eq_none (h : Passed s) (hp : 0 < s.world.shared.semaphore.permits)
    (hreceiver : s.receiver supply () = []) (t : Int) :
    (s.world.tasks.get t).awaits supply = none := by
  rcases ha : (s.world.tasks.get t).awaits supply with - | ⟨⟩
  · rfl
  · have hunfinished : (s.world.tasks.get t).isUnfinished = true := by
      by_contra hfin
      have hfree : s.world.tasks.get t = .free := Task.eq_free (by simpa using hfin)
      rw [hfree] at ha
      cases ha
    rcases List.mem_append.1 (h.direct.orderly.listed t hunfinished) with ht | ht
    · have hwoken : 0 < s.woken supply () :=
        List.countP_pos_iff.2 ⟨t, ht, by simpa using ha⟩
      rw [h.direct.woken_eq, hreceiver] at hwoken
      cases hwoken
    · obtain ⟨⟨⟩, ht⟩ := RunQueue.exists_of_mem_waiters ht
      have hzero := (h.direct.handsOver h.minding h.granting).permits_eq_zero () t ht hreceiver
      exact absurd hzero hp.ne'

/-- **A release that is one too many finds nobody waiting**, and afterwards nobody begins to. -/
theorem unawaited_tick (h : Passed s)
    (hs : (s.tick machine).world.shared.semaphore.poisoned = true) (t : Int) :
    ((s.tick machine).world.tasks.get t).awaits supply = none := by
  rcases hready : s.ready with - | ⟨v, rest⟩
  · rw [RunQueue.tick_of_nil machine hready] at hs ⊢
    exact h.unawaited hs t
  rw [RunQueue.tick_of_ready machine hready, RunQueue.world_requeue] at hs ⊢
  simp only at hs ⊢
  rcases hr : request? s.world v with - | r
  · have hrests := rests_of_no_request hr
    rw [hrests.shared_eq] at hs
    by_cases ht : t = v
    · rw [ht]
      exact Task.awaits_of_outside hrests.outside
    · rw [World.advance_get_of_ne machine s.world v ht]
      exact h.unawaited hs t
  · have hp := s.world.shared.passage_sectionAt r.spot
    rw [advance_of_request hr, World.settleMove_shared] at hs
    obtain ⟨a, hmove⟩ := hp.finish_of_poisoned hs
    by_cases ht : t = v
    · subst ht
      exact Task.awaits_of_outside (answered_of_finish hr hmove).2
    · rw [World.advance_get_of_ne machine s.world v ht]
      rcases hp.poisoned_cases hs with hs | ⟨hspot, hmax, -⟩
      · exact h.unawaited hs t
      · refine h.awaits_eq_none (by rw [hmax]; decide) ?_ t
        refine RunQueue.receiver_of_awaits_none (fun u hu => ?_) ()
        obtain rfl : v = u := by simpa [hready] using hu
        rw [awaits_of_request hr, hspot]
        rfl

end Passed

theorem keeps_passed : RunQueue.Keeps machine supply Passed where
  tick s h := by
    have hworld := RunQueue.world_iterate (Q := Tame) (m := machine) (fun _ t hw => hw.advance t)
      h.tame 1
    exact ⟨hworld, h.direct.tick h.minding h.granting, h.unawaited_tick⟩
  direct _ h := h.direct
  minding _ h := h.minding
  granting _ h := h.granting

/-- A round of work without resets begins and ends as it should. -/
theorem Passed.round {s : Tasks} (h : Passed s) (hready : s.ready = [])
    {work : List (Assignment Operation)} (hreset : Case.NeverResets [work]) :
    Passed (work.foldl RunQueue.handOut s) ∧ (s.carryOut machine work).ready = [] := by
  refine ⟨⟨Case.Tame.foldl_handOut h.tame hreset, h.direct.foldl_handOut hready work,
    fun hs t => ?_⟩, Case.ready_carryOut h.tame.sorted work⟩
  have hkept (a : Assignment Operation) (w : Traffic)
      (hw : w.shared.semaphore.poisoned = true → (w.tasks.get t).awaits supply = none) :
      (w.handOut a).shared.semaphore.poisoned = true →
        ((w.handOut a).tasks.get t).awaits supply = none := by
    rw [World.handOut_shared]
    intro hs
    rcases w.handOut_tasks a with heq | ⟨-, heq⟩
    · rw [heq]
      exact hw hs
    · rw [heq, Roster.get_set]
      split
      · rfl
      · exact hw hs
  exact RunQueue.world_foldl_handOut (fun a _ w hw => hkept a w hw)
    (fun hs => h.unawaited hs t) hs

end Semaphore

/-! ## Cases -/

/-- Permits of a queue are handed over at every point of a round. -/
theorem keeps_direct : RunQueue.Keeps (Session.machine (α := α)) Session.supply
    fun s => s.world.Regular ∧ s.Direct Session.supply where
  tick s h := by
    have hworld := RunQueue.world_iterate (Q := World.Regular) (m := Session.machine)
      (fun _ t hw => hw.happen (.advance t)) h.1 1
    exact ⟨hworld, h.2.tick h.1.minding h.1.granting⟩
  direct _ h := h.2
  minding _ h := h.1.minding
  granting _ h := h.1.granting

/-- **Nobody is overtaken.**  Take a case with a queue, or with a single semaphore that nobody
resets, in which a task that is woken has its turn at once.  At every point of a round, unless a
permit is being handed over, there is none where somebody waits for one.  So a woken task finds its
permit and does not block again; and who blocked on a semaphore is served in the order in which they
did, over all rounds and however turns are nested. -/
theorem no_overtaking :
    (∀ (c : Case α) (queue : Queue α), c.builder.1.build (.blank c.detail) = .ok queue →
      queue.capacity ≤ Semaphore.maxPermits → c.wake = .now →
      ∀ n work, c.rounds[n]? = some work → ∀ k,
      let given := work.foldl RunQueue.handOut
        (Case.afterRounds (c.initial queue) (c.rounds.take n))
      let now := (RunQueue.tick Session.machine)^[k] given
      now.HandsOver Session.machine Session.supply ∧ ∀ i, now.InTurn Session.supply i
        ((c.initial queue).notesOfRounds Session.machine Session.supply (c.rounds.take n) ++
          given.notesOf Session.machine Session.supply k)) ∧
    ∀ c : Semaphore.Case, Semaphore.Case.NeverResets c.rounds → c.wake = .now →
      ∀ n work, c.rounds[n]? = some work → ∀ k,
      let given := work.foldl RunQueue.handOut
        (Semaphore.Case.afterRounds c.initial (c.rounds.take n))
      let now := (RunQueue.tick Semaphore.machine)^[k] given
      now.HandsOver Semaphore.machine Semaphore.supply ∧ now.InTurn Semaphore.supply ()
        (c.initial.notesOfRounds Semaphore.machine Semaphore.supply (c.rounds.take n) ++
          given.notesOf Semaphore.machine Semaphore.supply k) := by
  refine ⟨fun c queue hbuild hmax hwake n work hwork k => ?_,
    fun c hreset hwake n work hwork k => ?_⟩
  · obtain ⟨hrest, hreg, -⟩ := Case.atRest_afterRounds hbuild hmax []
    refine keeps_direct.at_point (fun work _ s hs hready => ⟨⟨?_, ?_⟩, ?_⟩)
      ⟨hreg, .of_awaits_none hrest.orderly hwake (by simp [hrest.ready_eq])⟩ rfl rfl hwork k
    · exact RunQueue.world_foldl_handOut (fun a _ _ hw => hw.happen (.handOut a)) hs.1
    · exact hs.2.foldl_handOut hready work
    · have hrest : s.AtRest Session.supply := ⟨hs.2.orderly, hready⟩
      exact (hrest.carryOut (fun _ x hw => hw.happen x)
        (fun _ hw => ⟨hw.sorted, hw.winding, hw.minding⟩) hs.1 work).1.ready_eq
  · have hbegin : Semaphore.Passed c.initial := by
      refine ⟨.ofShared _ _ rfl, ?_, nofun⟩
      exact .of_awaits_none (RunQueue.atRest_ofShared _ _).orderly hwake nofun
    have hround (work : List (Assignment Semaphore.Operation)) (hmem : work ∈ c.rounds) :
        Semaphore.Case.NeverResets [work] := fun work' h =>
      hreset work' (List.mem_singleton.1 h ▸ hmem)
    obtain ⟨hnow, hturn⟩ := Semaphore.keeps_passed.at_point
      (fun work hmem s hs hready => hs.round hready (hround work hmem)) hbegin rfl rfl hwork k
    exact ⟨hnow, hturn ()⟩

/-- Who gets the permit passes it on to the next one, each of them before the one that woke it goes
on. -/
def passedAlong : Semaphore.Case where
  name := "test"
  permits := 0
  wake := .now
  detail := none
  rounds := [[⟨1, [.perform .acquire, .perform .release]⟩,
      ⟨2, [.perform .acquire, .perform .release]⟩, ⟨3, [.perform .acquire]⟩],
    [⟨4, [.perform .release, .perform .tryAcquire]⟩]]

theorem no_overtaking_passedAlong :
    let queue : Queue Nat := .fresh 1 none none (.blank none)
    let s := takingTurns.initial queue
    let given := [⟨3, [.perform .register, .perform (.enqueue 5), .perform .deregister,
      .perform (.enqueue 6)]⟩].foldl RunQueue.handOut
        (Case.afterRounds s (takingTurns.rounds.take 1))
    let now := (RunQueue.tick Session.machine)^[20] given
    let r := passedAlong.initial
    let given' := [⟨4, [.perform .release, .perform .tryAcquire]⟩].foldl RunQueue.handOut
      (Semaphore.Case.afterRounds r (passedAlong.rounds.take 1))
    let now' := (RunQueue.tick Semaphore.machine)^[3] given'
    now.ready = [1, 2, 3] ∧ now.receiver Session.supply .filled = [1] ∧
      now.HandsOver Session.machine Session.supply ∧
      TurnNote.blockers .filled (s.notesOfRounds Session.machine Session.supply
        (takingTurns.rounds.take 1) ++ given.notesOf Session.machine Session.supply 20) =
          [1, 2, 1] ∧
      now.InTurn Session.supply .filled (s.notesOfRounds Session.machine Session.supply
        (takingTurns.rounds.take 1) ++ given.notesOf Session.machine Session.supply 20) ∧
      Semaphore.Case.NeverResets passedAlong.rounds ∧ now'.ready = [2, 1, 4] ∧
      now'.receiver Semaphore.supply () = [2] ∧ now'.waitersOn () = [3] ∧
      now'.HandsOver Semaphore.machine Semaphore.supply ∧
      TurnNote.served () (r.notesOfRounds Semaphore.machine Semaphore.supply
        (passedAlong.rounds.take 1) ++ given'.notesOf Semaphore.machine Semaphore.supply 3) = [1] ∧
      now'.InTurn Semaphore.supply () (r.notesOfRounds Semaphore.machine Semaphore.supply
        (passedAlong.rounds.take 1) ++ given'.notesOf Semaphore.machine Semaphore.supply 3) := by
  intro queue s given now r given' now'
  obtain ⟨hnow, hturn⟩ := no_overtaking.1 takingTurns queue rfl (by decide) rfl 1 _ rfl 20
  have hreset : Semaphore.Case.NeverResets passedAlong.rounds := by decide
  obtain ⟨hnow', hturn'⟩ := (no_overtaking (α := Nat)).2 passedAlong hreset rfl 1 _ rfl 3
  exact ⟨by decide +kernel, by decide +kernel, hnow, by decide +kernel, hturn .filled, hreset,
    by decide +kernel, by decide +kernel, by decide +kernel, hnow', by decide +kernel, hturn'⟩

end BoundedQueue
