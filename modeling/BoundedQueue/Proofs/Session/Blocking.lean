import BoundedQueue.Proofs.Session.Drain
import BoundedQueue.Proofs.Session.Rounds

/-!
# Who is blocked, and why

Between two rounds of a case in which nothing panicked, a task is blocked only in an operation that
puts an entry into a full queue, or in one that takes an entry from an empty queue:
`Case.blocked_exactly`.

That every permit is accounted for is half of the reason; the other half is that nobody waits for a
permit that is there, so that a woken task which finds its permit gone waits again for good reason.

* `Operation.waitsToPut` and `Operation.waitsToTake` are the two kinds of operations.
* `Prompt` says that an attempt to put an item does not ask for a permit again, so that it is never
  one of those who wait (`prompt_after`).
* `Case.waiting_of_inside` says what a task that is in an operation between two rounds waits for,
  and that there is none of it; `Case.burden_at_rest` says that nobody holds a permit then.  So the
  permits are just the slots.
-/

set_option autoImplicit false

namespace BoundedQueue

variable {α : Type}

namespace Operation

/-- Whether an operation puts an entry, and waits while the queue is full. -/
def waitsToPut : Operation α → Bool
  | enqueue _ | send _ _ | deregister | finish _ | drop _ => true
  | _ => false

/-- Whether an operation takes entries, and waits while the queue is empty. -/
def waitsToTake : Operation α → Bool
  | dequeue | take _ | collect | next _ => true
  | _ => false

theorem not_waitsToPut {op : Operation α} (h : op.waitsToTake = true) :
    ¬op.waitsToPut = true := by
  cases op <;> simp_all [waitsToTake, waitsToPut]

theorem waitsToTake_iff {op : Operation α} :
    op.waitsToTake = true ↔ op.call? = some .dequeue := by
  cases op <;> simp [waitsToTake, call?]

end Operation

namespace World

/-- Task `t` has begun operation `op` and not finished it. -/
def Inside (w : Traffic α) (t : Int) (op : Operation α) : Prop :=
  ∃ job todo, w.tasks.get t = ⟨.inside op job, todo⟩

/-- An attempt to put an item does not ask for a permit again. -/
def Prompt (w : Traffic α) : Prop :=
  ∀ t op job todo, w.tasks.get t = ⟨.inside op job, todo⟩ → job.purpose = .attempt →
    (Spot.phase job.phase).asksFree = none

end World

/-- Only a call that asks for a free permit goes on asking, and one that deregisters begins to. -/
theorem Queue.Passage.asksFree_cases {q q' : Queue α} {spot : Spot α} {r : Option Remark}
    {move : Move (Phase α) Side (Outcome α)} {p : Phase α} (h : q.Passage spot r q' move)
    (hp : move.phases = {p}) : (Spot.phase p).asksFree = none ∨ spot = .opening .deregister ∨
      spot.asksFree ≠ none ∧ spot.isAttempt = false := by
  have hnext {p' : Phase α} (hm : move.phases = {p'}) : p' = p :=
    Multiset.singleton_inj.1 (hm.symm.trans hp)
  cases h with
  | waitFree hs ha => exact .inr (.inr ⟨by rw [hs]; nofun, ha⟩)
  | lower => exact .inr (.inl rfl)
  | vacate find => obtain rfl := hnext rfl; cases find <;> exact .inl rfl
  | takeFree | storeRefused | storeRejected | push | refundFree | publish | takeFilled | waitFilled
    | fetchRejected | popItem | popAbsorbed | popConcluded | refundFilled | passOn =>
    obtain rfl := hnext rfl
    exact .inl rfl
  | _ => simp [Move.phases] at hp

namespace World

variable {w w' : Traffic α} {t : Int} {e : Engagement α}

/-- An attempt asks for a permit at its opening only. -/
theorem Prompt.of_engagement (h : w.Prompt) (he : w.engagement? t = some e)
    (ha : e.purpose = .attempt) : (∃ a, e.spot = .opening (.tryEnqueue a)) ∨
      ∃ p, e.spot = .phase p ∧ (Spot.phase p).asksFree = none := by
  cases engaged he with
  | inside ht => exact .inr ⟨_, rfl, h _ _ _ _ ht ha⟩
  | @opens _ purpose _ _ _ ho =>
    have hopens := (Session.opens_of_opening ho).1
    obtain rfl : purpose = .attempt := ha
    cases hopens
    exact .inl ⟨_, rfl⟩

theorem Prompt.landing {q' q₁ : Queue α} {r : Option Remark}
    {move move' : Move (Phase α) Side (Outcome α)} (h : w.Prompt)
    (hp : w.shared.queue.Passage e.spot r q₁ move) (hs : Stride w w' t e q' move')
    (hmove : move' = move ∨ ∃ text, move' = .finish (.panicked text)) : w'.Prompt := by
  obtain ⟨x, new, hx, ht, -⟩ := hs.landing
  intro u op job todo hu hpurpose
  rw [ht, Roster.get_set] at hu
  split at hu
  · cases hx with
    | stay hphases =>
      cases hu
      rcases hmove with rfl | ⟨text, rfl⟩
      · rcases hp.asksFree_cases hphases with hnone | hspot | ⟨hasks, hno⟩
        · exact hnone
        · rcases h.of_engagement hs.engaged hpurpose with ⟨a, ha⟩ | ⟨p, hp, -⟩
          · cases hspot.symm.trans ha
          · cases hspot.symm.trans hp
        · rcases h.of_engagement hs.engaged hpurpose with ⟨a, ha⟩ | ⟨p, hp, hnone⟩
          · rw [ha] at hno; cases hno
          · rw [hp] at hasks; exact absurd hnone hasks
      · simp [Move.phases] at hphases
    | finish => cases hu
    | again => cases hu; cases hpurpose
  · exact h _ _ _ _ hu hpurpose

theorem Course.prompt (h : Course w w') (hprompt : w.Prompt) : w'.Prompt := by
  cases h with
  | quiet h => exact fun u op job todo hu => hprompt u op job todo (h.get_of_inside hu)
  | passage hp hs => exact hprompt.landing hp hs (.inl rfl)
  | sprung hr hp hs => exact hprompt.landing hp hs (.inr ⟨_, rfl⟩)

/-- **An attempt never waits**, in any run. -/
theorem prompt_after {capacity : Nat} (onEnqueue onDequeue : Option (Hook α)) (log : Logbook)
    (hpos : 0 < capacity) (hmax : capacity ≤ Semaphore.maxPermits)
    (hs : List (Happening (Operation α))) :
    ((Traffic.fresh capacity onEnqueue onDequeue log).after Session.machine hs).Prompt := by
  induction hs with
  | nil => intro t op job todo h; cases h
  | cons x hs ih =>
    exact (course_after onEnqueue onDequeue log hpos hmax x hs).prompt ih

end World

/-! ## Between two rounds -/

namespace Case

variable {s : Tasks α} {t : Int}

/-- Who is not through between two rounds is in an operation. -/
theorem inside_of_unfinished (h : s.AtRest Session.supply)
    (ht : (s.world.tasks.get t).isUnfinished = true) : ∃ op, s.world.Inside t op := by
  obtain ⟨op, job, todo, side, hget, -, -, -⟩ := h.blocked ht
  exact ⟨op, job, todo, hget⟩

/-- A task that is in an operation between two rounds waits to put an entry or to take one, and
there is no permit for that. -/
theorem waiting_of_inside (h : s.AtRest Session.supply) (hw : s.world.Regular)
    (hprompt : s.world.Prompt) {op : Operation α} {job : Job α}
    {todo : List (Instruction (Operation α))} (ht : s.world.tasks.get t = ⟨.inside op job, todo⟩) :
    job.phase.burden = .nothing ∧
      (op.waitsToPut = true ∧ s.world.shared.queue.free.permits = 0 ∨
        op.waitsToTake = true ∧ s.world.shared.queue.filled.permits = 0) := by
  obtain ⟨op', job', todo', side, hget, hawaits, -, hzero⟩ := h.blocked (by rw [ht]; rfl)
  cases ht.symm.trans hget
  obtain ⟨⟨c, hc, hvisits⟩, hserves⟩ := hw.jobs _ _ _ _ ht
  obtain ⟨purpose, phase⟩ := job
  cases phase with
  | awaitFree errand =>
    cases hawaits
    refine ⟨rfl, .inl ⟨?_, hzero⟩⟩
    have hattempt : purpose ≠ .attempt := fun heq => by
      cases hprompt _ _ _ _ ht heq
    cases c with
    | enqueue a =>
      cases op with
      | enqueue | send => rfl
      | _ => cases hc
    | deregister =>
      cases op with
      | deregister | finish | drop => rfl
      | _ => cases hc
    | tryEnqueue a =>
      cases op with
      | tryEnqueue => cases hserves; exact absurd rfl hattempt
      | _ => cases hc
    | dequeue => rcases hvisits with hv | ⟨-, hv⟩ <;> cases hv
    | register | install | clear => exact hvisits.elim
  | awaitFilled =>
    cases hawaits
    refine ⟨rfl, .inr ⟨Operation.waitsToTake_iff.2 ?_, hzero⟩⟩
    rw [hc, Call.eq_dequeue hvisits rfl]
  | _ => cases hawaits

/-- Between two rounds nobody holds a permit. -/
theorem burden_at_rest (h : s.AtRest Session.supply) (hw : s.world.Regular)
    (hprompt : s.world.Prompt) {p : Phase α} (hp : p ∈ s.world.phases) : p.burden = .nothing := by
  obtain ⟨t, ht⟩ := Roster.exists_mem_of_mem_total hw.sorted hp
  rcases hx : s.world.tasks.get t with ⟨standing, todo⟩
  rw [hx] at ht
  cases standing with
  | inside op job =>
    obtain rfl := Multiset.mem_singleton.1 ht
    exact (waiting_of_inside h hw hprompt hx).1
  | idle | paused => cases ht

variable {c : Case α} {queue : Queue α}

/-- **Tasks are blocked for good reason only.**  After every round without panics nobody can run.
The tasks that are not through are those that put an entry while the queue is full, and those that
take one while it is empty; so there are never tasks of both kinds, and neither a free slot nor an
entry is left lying while somebody waits for it. -/
theorem blocked_exactly (hbuild : c.builder.1.build (.blank c.detail) = .ok queue)
    (hmax : queue.capacity ≤ Semaphore.maxPermits) (n : Nat)
    (hcalm : (afterRounds (c.initial queue) (c.rounds.take n)).world.Calm) :
    let s := afterRounds (c.initial queue) (c.rounds.take n)
    let len := s.world.shared.queue.len
    s.ready = [] ∧
      (∀ t, (s.world.tasks.get t).isUnfinished = true →
        ∃ op, s.world.Inside t op ∧ (op.waitsToPut = true ∨ op.waitsToTake = true)) ∧
      (∀ t op, s.world.Inside t op → op.waitsToPut = true → len = queue.capacity) ∧
      (∀ t op, s.world.Inside t op → op.waitsToTake = true → len = 0) ∧
      ¬((∃ t op, s.world.Inside t op ∧ op.waitsToPut = true) ∧
        ∃ t op, s.world.Inside t op ∧ op.waitsToTake = true) := by
  intro s len
  obtain ⟨hpos, -⟩ := Builder.eq_fresh_of_build hbuild
  obtain ⟨hrest, hw, hs, hrun⟩ := atRest_afterRounds hbuild hmax (c.rounds.take n)
  obtain ⟨hexact, hcap⟩ := World.exact_after hpos hmax (hrun ▸ hcalm)
  have hprompt := World.prompt_after queue.onEnqueue queue.onDequeue (.blank c.detail) hpos hmax hs
  rw [← hrun] at hexact hcap hprompt
  -- nobody holds anything, so the permits are just the slots
  obtain ⟨hfree, hfilled⟩ := hexact.permits fun p hp => burden_at_rest hrest hw hprompt hp
  have hput (t : Int) (op : Operation α) (ht : s.world.Inside t op) (hop : op.waitsToPut = true) :
      len = queue.capacity := by
    obtain ⟨job, todo, hget⟩ := ht
    obtain ⟨-, ⟨-, h0⟩ | ⟨htake, -⟩⟩ := waiting_of_inside hrest hw hprompt hget
    · rw [h0, Nat.zero_add, hcap] at hfree
      exact hfree
    · exact absurd hop (Operation.not_waitsToPut htake)
  have htake (t : Int) (op : Operation α) (ht : s.world.Inside t op) (hop : op.waitsToTake = true) :
      len = 0 := by
    obtain ⟨job, todo, hget⟩ := ht
    obtain ⟨-, ⟨hput, -⟩ | ⟨-, h0⟩⟩ := waiting_of_inside hrest hw hprompt hget
    · exact absurd hput (Operation.not_waitsToPut hop)
    · exact hfilled.symm.trans h0
  refine ⟨hrest.ready_eq, fun t ht => ?_, hput, htake, ?_⟩
  · obtain ⟨op, job, todo, hget⟩ := inside_of_unfinished hrest ht
    obtain ⟨-, hop⟩ := waiting_of_inside hrest hw hprompt hget
    exact ⟨op, ⟨job, todo, hget⟩, hop.imp And.left And.left⟩
  · rintro ⟨⟨t, op, ht, hop⟩, u, op', hu, hop'⟩
    have hfull := hput t op ht hop
    have hempty := htake u op' hu hop'
    omega

/-- A single slot, an item for it, and another one that has to wait; then a consumer who asks for a
third one. -/
def crowded : Case Nat where
  capacity := 1
  build := none
  wake := .now
  detail := none
  rounds := [[⟨1, [.perform (.enqueue 5), .perform (.enqueue 6)]⟩], [⟨2, [.perform .register]⟩],
    [⟨3, [.perform .dequeue, .perform .dequeue, .perform .dequeue]⟩]]

/-- The queue of `crowded`. -/
def narrow : Queue Nat := .fresh 1 none none (.blank none)

theorem blocked_exactly_crowded :
    let s := afterRounds (crowded.initial narrow) (crowded.rounds.take 2)
    let s' := afterRounds (crowded.initial narrow) (crowded.rounds.take 3)
    (crowded.builder.1.build (.blank crowded.detail) = .ok narrow ∧ s.world.Calm ∧
      s'.world.Calm) ∧
    ((s.world.tasks.get 1).isUnfinished = true ∧
      (∃ op, s.world.Inside 1 op ∧ (op.waitsToPut = true ∨ op.waitsToTake = true)) ∧
      (∀ op, s.world.Inside 1 op → op.waitsToPut = true →
        s.world.shared.queue.len = narrow.capacity) ∧ s.world.shared.queue.len = 1) ∧
    ((s'.world.tasks.get 3).isUnfinished = true ∧
      (∃ op, s'.world.Inside 3 op ∧ (op.waitsToPut = true ∨ op.waitsToTake = true)) ∧
      (∀ op, s'.world.Inside 3 op → op.waitsToTake = true → s'.world.shared.queue.len = 0) ∧
      s'.world.shared.queue.len = 0) := by
  intro s s'
  have hcalm : s.world.Calm := World.calm_of_all (by decide +kernel) (by decide +kernel)
  have hcalm' : s'.world.Calm := World.calm_of_all (by decide +kernel) (by decide +kernel)
  have hbuild : crowded.builder.1.build (.blank crowded.detail) = .ok narrow := rfl
  have hputter : (s.world.tasks.get 1).isUnfinished = true := by decide +kernel
  have htaker : (s'.world.tasks.get 3).isUnfinished = true := by decide +kernel
  obtain ⟨-, hblocked, hput, -, -⟩ := blocked_exactly hbuild (by decide) 2 hcalm
  obtain ⟨-, hblocked', -, htake, -⟩ := blocked_exactly hbuild (by decide) 3 hcalm'
  exact ⟨⟨hbuild, hcalm, hcalm'⟩,
    ⟨hputter, hblocked 1 hputter, fun op => hput 1 op, by decide +kernel⟩,
    htaker, hblocked' 3 htaker, fun op => htake 3 op, by decide +kernel⟩

end Case

end BoundedQueue
