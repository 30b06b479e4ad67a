import BoundedQueue.Proofs.Semaphore.Rounds
import BoundedQueue.Proofs.Session.Rounds

/-!
# Rounds end, and nobody is forgotten

Two results about rounds of work, which hold of cases with a queue and of those with a single
semaphore, however woken tasks are scheduled.

* `every_round_ends`: turn after turn, a round comes to a point where nobody can run.
* `nobody_forgotten`: at every point of a round, who waits for a permit that is there does so behind
  a task that was woken for it; so at the end of the round nobody waits for a permit that is there.
-/

set_option autoImplicit false

namespace BoundedQueue

variable {α : Type}

/-- The rounds of a list up to one of them, and that one. -/
theorem take_succ_of_getElem? {β : Type} {l : List β} {n : Nat} {b : β} (h : l[n]? = some b) :
    l.take (n + 1) = l.take n ++ [b] := by
  rw [List.take_add_one, h, Option.toList_some]

/-! ## Every round ends -/

/-- **Every round ends.**  The loop of a consumer that absorbs markers, iterations, consumers that
pass a marker on to each other, waiters that are woken in vain and turns that are nested in others
do not go on for ever: after finitely many turns nobody can run, and this is where the case goes on
with the next round. -/
theorem every_round_ends :
    (∀ (c : Case α) (queue : Queue α), c.builder.1.build (.blank c.detail) = .ok queue →
      queue.capacity ≤ Semaphore.maxPermits → ∀ n work, c.rounds[n]? = some work →
      let s := work.foldl RunQueue.handOut (Case.afterRounds (c.initial queue) (c.rounds.take n))
      s.Ends Session.machine ∧
        Case.afterRounds (c.initial queue) (c.rounds.take (n + 1)) = s.settle Session.machine) ∧
    ∀ (c : Semaphore.Case) n work, c.rounds[n]? = some work →
      let s := work.foldl RunQueue.handOut
        (Semaphore.Case.afterRounds c.initial (c.rounds.take n))
      s.Ends Semaphore.machine ∧ Semaphore.Case.afterRounds c.initial (c.rounds.take (n + 1)) =
        s.settle Semaphore.machine := by
  refine ⟨fun c queue hbuild hmax n work hwork => ?_, fun c n work hwork => ?_⟩
  · obtain ⟨hrest, -, -⟩ := Case.atRest_afterRounds hbuild hmax (c.rounds.take (n + 1))
    have hready := hrest.ready_eq
    rw [take_succ_of_getElem? hwork, Case.afterRounds_concat] at hready ⊢
    exact ⟨RunQueue.ends_of_settle hready, rfl⟩
  · have hready := Semaphore.Case.ready_afterRounds c (c.rounds.take (n + 1))
    rw [take_succ_of_getElem? hwork, Semaphore.Case.afterRounds_concat] at hready ⊢
    exact ⟨RunQueue.ends_of_settle hready, rfl⟩

/-- Two iterations wait for what a producer is going to hand in, and take turns at the only slot. -/
def takingTurns : Case Nat where
  capacity := 1
  build := none
  wake := .now
  detail := none
  rounds := [[⟨1, [.perform .collect]⟩, ⟨2, [.perform .collect]⟩],
    [⟨3, [.perform .register, .perform (.enqueue 5), .perform .deregister,
      .perform (.enqueue 6)]⟩]]

/-- A waiter who is woken for a permit that is taken by somebody else. -/
def wokenInVain : Semaphore.Case where
  name := "test"
  permits := 0
  wake := .later
  detail := none
  rounds := [[⟨1, [.perform .acquire]⟩, ⟨2, [.perform .acquire]⟩],
    [⟨3, [.perform .release, .perform .tryAcquire]⟩]]

theorem every_round_ends_takingTurns :
    let queue : Queue Nat := .fresh 1 none none (.blank none)
    let s := Case.afterRounds (takingTurns.initial queue) (takingTurns.rounds.take 1)
    let s' := [⟨3, [.perform .register, .perform (.enqueue 5), .perform .deregister,
      .perform (.enqueue 6)]⟩].foldl RunQueue.handOut s
    let r := Semaphore.Case.afterRounds wokenInVain.initial (wokenInVain.rounds.take 1)
    let r' := [⟨3, [.perform .release, .perform .tryAcquire]⟩].foldl RunQueue.handOut r
    takingTurns.builder.1.build (.blank takingTurns.detail) = .ok queue ∧
      s'.Ends Session.machine ∧ ((RunQueue.tick Session.machine)^[31] s').ready = [3] ∧
      ((RunQueue.tick Session.machine)^[32] s').ready = [] ∧ r'.Ends Semaphore.machine :=
  ⟨rfl, (every_round_ends.1 takingTurns _ rfl (by decide) 1 _ rfl).1, by decide +kernel,
    by decide +kernel, ((every_round_ends (α := Nat)).2 wokenInVain 1 _ rfl).1⟩

/-! ## Nobody is forgotten -/

/-- **Nobody is forgotten.**  At every point of a round, where tasks wait for permits there are no
more of these than tasks that were woken for one and have not asked again.  At the end of the round
every task that is not through waits in a single place, for a permit of which there is none.  Hooks
and loggers may panic, locks may be poisoned and a queue may be cleared.  A single semaphore has to
be without resets, and as yet without a release that was one too many. -/
theorem nobody_forgotten :
    (∀ (c : Case α) (queue : Queue α), c.builder.1.build (.blank c.detail) = .ok queue →
      queue.capacity ≤ Semaphore.maxPermits → ∀ n work, c.rounds[n]? = some work →
      let s := Case.afterRounds (c.initial queue) (c.rounds.take n)
      (∀ k, ((RunQueue.tick Session.machine)^[k]
        (work.foldl RunQueue.handOut s)).NobodyForgotten Session.supply) ∧
      (s.carryOut Session.machine work).Standstill Session.supply) ∧
    ∀ c : Semaphore.Case, Semaphore.Case.NeverResets c.rounds →
      ∀ n work, c.rounds[n]? = some work →
      let s := Semaphore.Case.afterRounds c.initial (c.rounds.take n)
      (∀ k, let s' := (RunQueue.tick Semaphore.machine)^[k] (work.foldl RunQueue.handOut s)
        ¬Semaphore.Overflowed s'.world → s'.NobodyForgotten Semaphore.supply) ∧
      (¬Semaphore.Overflowed (s.carryOut Semaphore.machine work).world →
        (s.carryOut Semaphore.machine work).Standstill Semaphore.supply) := by
  refine ⟨fun c queue hbuild hmax n work hwork => ⟨fun k => ?_, ?_⟩,
    fun c hreset n work hwork => ⟨fun k hk => ?_, fun hend => ?_⟩⟩
  · exact (Case.orderly_iterate hbuild hmax _ work k).permits_le
  · rw [← Case.afterRounds_concat]
    exact (Case.atRest_afterRounds hbuild hmax _).1.standstill
  · have htake : Semaphore.Case.NeverResets (c.rounds.take n) := fun work h =>
      hreset work (List.mem_of_mem_take h)
    have hone : Semaphore.Case.NeverResets [work] := fun work' h =>
      hreset work' (List.mem_singleton.1 h ▸ List.mem_of_getElem? hwork)
    obtain ⟨htame, hrest⟩ := Semaphore.Case.atRest_afterRounds c htake
    exact (Semaphore.Case.orderly_iterate htame hrest hone hk).permits_le
  · have htake : Semaphore.Case.NeverResets (c.rounds.take (n + 1)) := fun work h =>
      hreset work (List.mem_of_mem_take h)
    rw [← Semaphore.Case.afterRounds_concat, ← take_succ_of_getElem? hwork] at hend ⊢
    exact ((Semaphore.Case.atRest_afterRounds c htake).2 hend).standstill

theorem nobody_forgotten_wokenInVain :
    let queue : Queue Nat := .fresh 1 none none (.blank none)
    let s := Case.afterRounds (takingTurns.initial queue) (takingTurns.rounds.take 1)
    let s' := (RunQueue.tick Session.machine)^[5] ([⟨3, [.perform .register,
      .perform (.enqueue 5), .perform .deregister,
      .perform (.enqueue 6)]⟩].foldl RunQueue.handOut s)
    let r := Semaphore.Case.afterRounds wokenInVain.initial (wokenInVain.rounds.take 1)
    let work := [⟨3, [.perform .release, .perform .tryAcquire]⟩]
    let r' := (RunQueue.tick Semaphore.machine)^[1] (work.foldl RunQueue.handOut r)
    let r'' := r.carryOut Semaphore.machine work
    takingTurns.builder.1.build (.blank takingTurns.detail) = .ok queue ∧
      s'.waiting = [(.filled, 2)] ∧ s'.NobodyForgotten Session.supply ∧
      Semaphore.Case.NeverResets wokenInVain.rounds ∧ ¬Semaphore.Overflowed r''.world ∧
      r'.waiting = [((), 2)] ∧ r'.world.shared.semaphore.permits = 1 ∧
      r'.NobodyForgotten Semaphore.supply ∧ r''.waiting = [((), 2), ((), 1)] ∧
      r''.Standstill Semaphore.supply := by
  intro queue s s' r work r' r''
  have hreset : Semaphore.Case.NeverResets wokenInVain.rounds := by decide
  have hwork : wokenInVain.rounds[1]? = some work := rfl
  have hend : ¬Semaphore.Overflowed r''.world :=
    Semaphore.not_overflowed_of_all (by decide +kernel)
  obtain ⟨hrounds, hstill⟩ := (nobody_forgotten (α := Nat)).2 wokenInVain hreset 1 work hwork
  exact ⟨rfl, by decide +kernel,
    (nobody_forgotten.1 takingTurns queue rfl (by decide) 1 _ rfl).1 5, hreset, hend,
    by decide +kernel, by decide +kernel,
    hrounds 1 (Semaphore.not_overflowed_of_all (by decide +kernel)), by decide +kernel,
    hstill hend⟩

end BoundedQueue
