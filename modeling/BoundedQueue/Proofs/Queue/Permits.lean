import BoundedQueue.Proofs.Queue.Passage
import Mathlib.Algebra.Order.Group.Multiset

/-!
# The books of a queue

A permit of `free` stands for a free slot and one of `filled` for a filled one, but a call changes a
permit and its slot in different sections.  The books agree once what the calls in progress hold is
entered as well: `carried b phases` says how many of them have the burden `b`.

There are two sides to the books.  `freeSide` is what stands for a slot that is free or was, and
`filledSide` what stands for a filled slot; `permitsInAll` adds up the permits of both kinds.

* `Within` says that no more is entered than there are slots.  It survives whatever fails or panics,
  since a failure may lose a permit but never makes one (`Passage.books_le`).  It is what makes
  every section `Workable`: who has a permit finds the slot or the entry that it stands for, or is
  told.
* `Exact` says that the books agree to the last slot.  It is lost with a panic under a lock and
  never otherwise (`Exact.passage`).  When no call holds anything, the permits are then just the
  slots (`Exact.permits`).

A clearing is the exception throughout.  It sets permits where other passages move them about, and
where a lock is poisoned it stops half-way; `Passage.clear_cases` lists what can come of it.
-/

set_option autoImplicit false

namespace BoundedQueue

variable {α : Type}

/-! ## What the calls carry -/

/-- How many of the calls at the given phases have a burden. -/
def carried (b : Burden) (phases : Multiset (Phase α)) : Nat :=
  phases.countP fun p => p.burden = b

section Carried

variable {b : Burden} {p : Phase α} {phases : Multiset (Phase α)} {spot : Spot α}

@[simp] theorem carried_zero (b : Burden) : carried b (0 : Multiset (Phase α)) = 0 := rfl

@[simp] theorem carried_add (b : Burden) (phases others : Multiset (Phase α)) :
    carried b (phases + others) = carried b phases + carried b others :=
  Multiset.countP_add _ _ _

@[simp] theorem carried_singleton (b : Burden) (p : Phase α) :
    carried b {p} = if p.burden = b then 1 else 0 := by
  rw [carried, ← Multiset.cons_zero, Multiset.countP_cons, Multiset.countP_zero, zero_add]

theorem carried_spot (hb : b ≠ .nothing) (spot : Spot α) :
    carried b spot.phases = if spot.burden = b then 1 else 0 := by
  cases spot with
  | opening c => rw [Spot.phases, Spot.burden, if_neg hb.symm, carried_zero]
  | phase p => rw [Spot.phases, Spot.burden, carried_singleton]

theorem burden_of_asksFree {errand : Errand α} (h : spot.asksFree = some errand) :
    spot.burden = .nothing := by
  cases spot with
  | opening => rfl
  | phase p => cases p <;> first | rfl | cases h

theorem burden_of_asksFilled (h : spot.asksFilled = true) : spot.burden = .nothing := by
  cases spot with
  | opening => rfl
  | phase p => cases p <;> first | rfl | cases h

end Carried

/-! ## The two sides of the books -/

namespace Queue

/-- What stands for a slot that is free or was: free permits, filled slots, and the slots in the
hands of calls that have taken a permit for one or have emptied one. -/
def freeSide (q : Queue α) (phases : Multiset (Phase α)) : Nat :=
  q.free.permits + q.len + carried .freePermit phases + carried .vacantSlot phases

/-- What stands for a filled slot: filled permits, and those that calls have taken or still owe. -/
def filledSide (q : Queue α) (phases : Multiset (Phase α)) : Nat :=
  q.filled.permits + carried .filledPermit phases + carried .filledSlot phases

/-- All permits, wherever they are. -/
def permitsInAll (q : Queue α) (phases : Multiset (Phase α)) : Nat :=
  q.free.permits + carried .freePermit phases + carried .vacantSlot phases + q.filledSide phases

/-- No more is entered than there are slots. -/
structure Within (q : Queue α) (phases : Multiset (Phase α)) : Prop where
  freeSound : q.free.poisoned = false
  filledSound : q.filled.poisoned = false
  ringSound : q.ring.Sound
  capacity_eq : q.ring.capacity = q.capacity
  capacity_le : q.capacity ≤ Semaphore.maxPermits
  freeSide_le : q.freeSide phases ≤ q.capacity
  permitsInAll_le : q.permitsInAll phases ≤ q.capacity

/-- The books agree to the last slot, and no lock is poisoned. -/
structure Exact (q : Queue α) (phases : Multiset (Phase α)) : Prop where
  bufferSound : q.bufferPoisoned = false
  producersSound : q.producersPoisoned = false
  freeSide_eq : q.freeSide phases = q.capacity
  filledSide_eq : q.filledSide phases = q.len

variable {q q' : Queue α} {spot : Spot α} {r : Option Remark}
  {move : Move (Phase α) Side (Outcome α)} {others : Multiset (Phase α)}

theorem Within.workable (h : q.Within (spot.phases + others)) : q.Workable spot := by
  have hcap := h.capacity_eq
  have hmax := h.capacity_le
  have hfree := h.freeSide_le
  have hall := h.permitsInAll_le
  simp only [freeSide, permitsInAll, filledSide, carried_add, carried_spot, ne_eq, reduceCtorEq,
    not_false_eq_true] at hfree hall
  refine ⟨h.freeSound, h.filledSound, fun hb => ?_, fun hb => ?_, fun hb => ?_⟩
  · rcases hb with hb | hb <;> simp only [hb, if_true] at hfree <;> omega
  · rcases hb with hb | hb <;> simp only [hb, if_true] at hall <;> omega
  · simp only [hb, if_true, len] at hfree
    omega

/-! ## What a passage does to the books -/

/-- Outside of a clearing, a passage moves permits about and may lose one; it never makes one. -/
theorem Passage.books_le (h : Passage q spot r q' move) (hring : q.ring.Sound)
    (hspot : spot ≠ .opening .clear) :
    q'.freeSide move.phases ≤ q.freeSide spot.phases ∧
      q'.permitsInAll move.phases ≤ q.permitsInAll spot.phases := by
  simp only [freeSide, permitsInAll, filledSide, carried_spot, ne_eq, reduceCtorEq,
    not_false_eq_true, len]
  cases h with
  | takeFree hs hp | waitFree hs ha hp =>
    simp [burden_of_asksFree hs, Move.phases, Phase.burden]
    try omega
  | takeFilled hs hp | waitFilled hs hp =>
    simp [burden_of_asksFilled hs, Move.phases, Phase.burden]
    try omega
  | storePanicked hb hc | storeRejected hb hc | fetchPanicked hb hr hc | fetchRejected hb hr hc =>
    obtain ⟨onE, onD, notes, -, rfl⟩ := exists_of_consult hc
    simp [Move.phases, Spot.burden, Phase.burden, poison]
    try omega
  | push hb hc hr =>
    obtain ⟨onE, onD, notes, -, rfl⟩ := exists_of_consult hc
    have := Ring.len_push hr
    simp [Move.phases, Spot.burden, Phase.burden, note]
    omega
  | popItem hb hc hr | popAbsorbed hb hc hr | popConcluded hb hc hr =>
    obtain ⟨onE, onD, notes, -, rfl⟩ := exists_of_consult hc
    have := hring.len_pop hr
    simp [Move.phases, Spot.burden, Phase.burden, note]
    omega
  | popBlind hb hc hr =>
    obtain ⟨onE, onD, notes, -, rfl⟩ := exists_of_consult hc
    have := hring.len_pop hr
    simp [Move.phases, Spot.burden, Phase.burden, note]
    omega
  | vacate find =>
    cases find <;> simp [Move.phases, Spot.burden, Phase.burden, afterVacating] <;> omega
  | refundFree | passOn => simp [Move.phases, Spot.burden, Phase.burden]; omega
  | clear | clearHalfway | clearRefused => exact absurd rfl hspot
  | install => simp [Move.phases, Spot.burden, setHook]; split <;> simp
  | _ => simp [Move.phases, Spot.burden, Phase.burden, note]

/-- Nothing is lost either, unless a lock is poisoned or a hook panics. -/
theorem Passage.books_eq (h : Passage q spot r q' move) (hring : q.ring.Sound)
    (hspot : spot ≠ .opening .clear) (hlen : spot = .phase .fetch → q.len ≠ 0)
    (hbuffer : q.bufferPoisoned = false) (hproducers : q.producersPoisoned = false)
    (hmove : ∀ text, move ≠ .finish (.panicked text)) :
    q'.freeSide move.phases = q.freeSide spot.phases ∧
      q'.filledSide move.phases + q.len = q.filledSide spot.phases + q'.len := by
  simp only [freeSide, filledSide, carried_spot, ne_eq, reduceCtorEq, not_false_eq_true, len] at *
  cases h with
  | takeFree hs hp | waitFree hs ha hp =>
    simp [burden_of_asksFree hs, Move.phases, Phase.burden]
    try omega
  | takeFilled hs hp | waitFilled hs hp =>
    simp [burden_of_asksFilled hs, Move.phases, Phase.burden]
    try omega
  | storePanicked | fetchPanicked => exact absurd rfl (hmove _)
  | storeRefused errand hb | fetchRefused hb | installRefused hb =>
    rw [hb] at hbuffer
    cases hbuffer
  | popBlind hb hc hr hl hp => rw [hp] at hproducers; cases hproducers
  | fetchEmpty hb hr => exact absurd ((hring.peek?_eq_none_iff).1 hr) (hlen rfl)
  | storeRejected hb hc | fetchRejected hb hr hc =>
    obtain ⟨onE, onD, notes, -, rfl⟩ := exists_of_consult hc
    simp [Move.phases, Spot.burden, Phase.burden]
  | push hb hc hr =>
    obtain ⟨onE, onD, notes, -, rfl⟩ := exists_of_consult hc
    have := Ring.len_push hr
    simp [Move.phases, Spot.burden, Phase.burden, note]
    omega
  | popItem hb hc hr | popAbsorbed hb hc hr | popConcluded hb hc hr =>
    obtain ⟨onE, onD, notes, -, rfl⟩ := exists_of_consult hc
    have := hring.len_pop hr
    simp [Move.phases, Spot.burden, Phase.burden, note]
    omega
  | vacate find =>
    cases find <;> simp [Move.phases, Spot.burden, Phase.burden, afterVacating] <;> omega
  | refundFree | passOn => simp [Move.phases, Spot.burden, Phase.burden]; omega
  | clear | clearHalfway | clearRefused => exact absurd rfl hspot
  | install => simp [Move.phases, Spot.burden, setHook]; split <;> simp
  | _ => simp [Move.phases, Spot.burden, Phase.burden, note]

/-- A passage keeps the slots in order, poisons no semaphore, and only adds to the history. -/
structure Kept (q q' : Queue α) : Prop where
  capacity_eq : q'.capacity = q.capacity
  freePoisoned_eq : q'.free.poisoned = q.free.poisoned
  filledPoisoned_eq : q'.filled.poisoned = q.filled.poisoned
  ringSound : q.ring.Sound → q'.ring.Sound
  ringCapacity_eq : q'.ring.capacity = q.ring.capacity
  history_eq : ∃ notes, q'.history = notes ++ q.history

theorem Passage.kept (h : Passage q spot r q' move) : Kept q q' := by
  cases h with
  | push hb hc hr =>
    obtain ⟨onE, onD, notes, -, rfl⟩ := exists_of_consult hc
    exact ⟨rfl, rfl, rfl, fun hs => hs.push hr, Ring.capacity_push hr, _ :: notes, rfl⟩
  | popItem hb hc hr | popBlind hb hc hr =>
    obtain ⟨onE, onD, notes, -, rfl⟩ := exists_of_consult hc
    exact ⟨rfl, rfl, rfl, fun hs => hs.pop hr, Ring.capacity_pop hr, _ :: notes, rfl⟩
  | popAbsorbed hb hc hr | popConcluded hb hc hr =>
    obtain ⟨onE, onD, notes, -, rfl⟩ := exists_of_consult hc
    exact ⟨rfl, rfl, rfl, fun hs => hs.pop hr, Ring.capacity_pop hr, _ :: _ :: notes, rfl⟩
  | storePanicked hb hc | storeRejected hb hc | fetchPanicked hb hr hc | fetchRejected hb hr hc =>
    obtain ⟨onE, onD, notes, -, rfl⟩ := exists_of_consult hc
    exact ⟨rfl, rfl, rfl, id, rfl, notes, rfl⟩
  | @install stage => cases stage <;> exact ⟨rfl, rfl, rfl, id, rfl, [], rfl⟩
  | raise | lower | leaveOut => exact ⟨rfl, rfl, rfl, id, rfl, [_], rfl⟩
  | clear =>
    exact ⟨rfl, rfl, rfl, Ring.Sound.clear, Ring.capacity_clear _, [.renewed, .emptied], rfl⟩
  | clearHalfway => exact ⟨rfl, rfl, rfl, Ring.Sound.clear, Ring.capacity_clear _, [_], rfl⟩
  | _ => exact ⟨rfl, rfl, rfl, id, rfl, [], rfl⟩

/-! ## The books stay in order -/

theorem freeSide_add (q : Queue α) (phases others : Multiset (Phase α)) :
    q.freeSide (phases + others) =
      q.freeSide phases + carried .freePermit others + carried .vacantSlot others := by
  simp only [freeSide, carried_add]
  omega

theorem filledSide_add (q : Queue α) (phases others : Multiset (Phase α)) :
    q.filledSide (phases + others) =
      q.filledSide phases + carried .filledPermit others + carried .filledSlot others := by
  simp only [filledSide, carried_add]
  omega

theorem permitsInAll_add (q : Queue α) (phases others : Multiset (Phase α)) :
    q.permitsInAll (phases + others) = q.permitsInAll phases + carried .freePermit others +
      carried .vacantSlot others + carried .filledPermit others + carried .filledSlot others := by
  simp only [permitsInAll, filledSide, carried_add]
  omega

/-- A clearing that is not refused empties the ring, and sets the permits if it gets that far. -/
theorem Passage.clear_cases (h : Passage q (.opening .clear) r q' move) :
    (∃ o, move = .finish o) ∧
      (q.bufferPoisoned = true ∧ q' = q ∨
        q'.ring = q.ring.clear ∧ q'.free.permits = q.free.permits ∧
          q'.filled.permits = q.filled.permits ∧ q.producersPoisoned = true ∨
        q'.ring = q.ring.clear ∧ q'.free.permits = q.capacity ∧ q'.filled.permits = 0 ∧
          q'.bufferPoisoned = q.bufferPoisoned ∧ q'.producersPoisoned = q.producersPoisoned) := by
  cases h with
  | clearRefused hb => exact ⟨⟨_, rfl⟩, .inl ⟨hb, rfl⟩⟩
  | clearHalfway hb hp => exact ⟨⟨_, rfl⟩, .inr (.inl ⟨rfl, rfl, rfl, hp⟩)⟩
  | clear => exact ⟨⟨_, rfl⟩, .inr (.inr ⟨rfl, rfl, rfl, rfl, rfl⟩)⟩
  | takeFree hs | waitFree hs | takeFilled hs | waitFilled hs => cases hs

theorem Within.passage (h : q.Within (spot.phases + others)) (hp : Passage q spot r q' move)
    (halone : spot = .opening .clear → others = 0) : q'.Within (move.phases + others) := by
  obtain ⟨hcap, hfp, hgp, hring, hrcap, -⟩ := hp.kept
  have h₁ := h.freeSide_le
  have h₂ := h.permitsInAll_le
  have hbooks : q'.freeSide (move.phases + others) ≤ q'.capacity ∧
      q'.permitsInAll (move.phases + others) ≤ q'.capacity := by
    by_cases hspot : spot = .opening .clear
    · obtain rfl := halone hspot
      subst hspot
      obtain ⟨⟨o, rfl⟩, ⟨-, rfl⟩ | ⟨hr, hf, hg, -⟩ | ⟨hr, hf, hg, -⟩⟩ := hp.clear_cases
      · exact ⟨h₁, h₂⟩
      · simp [Move.phases, Spot.phases, freeSide, permitsInAll, filledSide, len, hr, hf, hg,
          hcap] at h₁ h₂ ⊢
        omega
      · simp [Move.phases, freeSide, permitsInAll, filledSide, len, hr, hf, hg, hcap]
    · have hle := hp.books_le h.ringSound hspot
      simp only [freeSide_add, permitsInAll_add, hcap] at *
      omega
  exact ⟨hfp.trans h.freeSound, hgp.trans h.filledSound, hring h.ringSound,
    hrcap.trans (h.capacity_eq.trans hcap.symm), hcap ▸ h.capacity_le, hbooks.1, hbooks.2⟩

/-- The books do not depend on what is logged or poisoned, and a call that is given up does not put
them out of order. -/
theorem Within.change (log : Logbook) (bufferPoisoned producersPoisoned : Bool)
    {phases : Multiset (Phase α)} (h : q.Within (phases + others)) :
    { q with
        log := log, bufferPoisoned := bufferPoisoned,
        producersPoisoned := producersPoisoned : Queue α }.Within others := by
  have h₁ := h.freeSide_le
  have h₂ := h.permitsInAll_le
  rw [add_comm, freeSide_add] at h₁
  rw [add_comm, permitsInAll_add] at h₂
  exact ⟨h.freeSound, h.filledSound, h.ringSound, h.capacity_eq, h.capacity_le,
    by simp only [freeSide, len] at *; omega,
    by simp only [permitsInAll, filledSide] at *; omega⟩

/-- A call that asks for an item holds nothing. -/
theorem sides_askFilled (q : Queue α) (others : Multiset (Phase α)) :
    q.freeSide ({.askFilled} + others) = q.freeSide others ∧
      q.filledSide ({.askFilled} + others) = q.filledSide others ∧
      q.permitsInAll ({.askFilled} + others) = q.permitsInAll others := by
  simp only [freeSide, filledSide, permitsInAll, carried_add, carried_singleton, Phase.burden,
    reduceCtorEq, if_false, zero_add, and_self]

theorem Within.askFilled (h : q.Within others) : q.Within ({.askFilled} + others) := by
  obtain ⟨h₁, -, h₂⟩ := q.sides_askFilled others
  exact ⟨h.freeSound, h.filledSound, h.ringSound, h.capacity_eq, h.capacity_le,
    h₁.trans_le h.freeSide_le, h₂.trans_le h.permitsInAll_le⟩

/-- A filled permit in the hands of a call stands for a filled slot. -/
theorem Exact.len_pos (h : q.Exact (spot.phases + others)) (hspot : spot = .phase .fetch) :
    q.len ≠ 0 := by
  have hfilled := h.filledSide_eq
  subst hspot
  simp only [filledSide, Spot.phases, carried_add, carried_singleton, Phase.burden,
    if_true] at hfilled
  omega

/-- Only a panic poisons a lock. -/
theorem Passage.locks_eq (h : Passage q spot r q' move)
    (hmove : ∀ text, move ≠ .finish (.panicked text)) :
    q'.bufferPoisoned = q.bufferPoisoned ∧ q'.producersPoisoned = q.producersPoisoned := by
  cases h with
  | storePanicked | fetchPanicked => exact absurd rfl (hmove _)
  | push hb hc | popItem hb hc | popAbsorbed hb hc | popBlind hb hc | popConcluded hb hc
  | storeRejected hb hc =>
    obtain ⟨onE, onD, notes, -, rfl⟩ := exists_of_consult hc
    exact ⟨rfl, rfl⟩
  | fetchRejected hb hr hc =>
    obtain ⟨onE, onD, notes, -, rfl⟩ := exists_of_consult hc
    exact ⟨rfl, rfl⟩
  | @install stage => cases stage <;> exact ⟨rfl, rfl⟩
  | _ => exact ⟨rfl, rfl⟩

/-- A passage that ends in a panic is one in which a hook panicked. -/
theorem Passage.panicked {text : String} (h : Passage q spot r q' (.finish (.panicked text))) :
    ∃ stage entry, .consulted stage entry (.panic text) ∈ q'.history := by
  cases h with
  | storePanicked hb hc | fetchPanicked hb hr hc =>
    obtain ⟨onE, onD, notes, ⟨-, hv⟩ | rfl, rfl⟩ := exists_of_consult hc
    · cases hv
    · exact ⟨_, _, List.mem_cons_self⟩

/-- **The books still agree to the last slot after a passage in which nothing panics.** -/
theorem Exact.passage (h : q.Exact (spot.phases + others)) (hring : q.ring.Sound)
    (hp : Passage q spot r q' move) (halone : spot = .opening .clear → others = 0)
    (hmove : ∀ text, move ≠ .finish (.panicked text)) : q'.Exact (move.phases + others) := by
  obtain ⟨hb, hpr⟩ := hp.locks_eq hmove
  have h₁ := h.freeSide_eq
  have h₂ := h.filledSide_eq
  have hcap := hp.kept.capacity_eq
  have hbooks : q'.freeSide (move.phases + others) = q'.capacity ∧
      q'.filledSide (move.phases + others) = q'.len := by
    by_cases hspot : spot = .opening .clear
    · obtain rfl := halone hspot
      subst hspot
      obtain ⟨⟨o, rfl⟩, ⟨hpoison, -⟩ | ⟨-, -, -, hpoison⟩ | ⟨hr, hf, hg, -⟩⟩ := hp.clear_cases
      · rw [h.bufferSound] at hpoison; cases hpoison
      · rw [h.producersSound] at hpoison; cases hpoison
      · simp [Move.phases, freeSide, filledSide, len, hr, hf, hg, hcap]
    · have heq := hp.books_eq hring hspot h.len_pos h.bufferSound h.producersSound hmove
      simp only [freeSide_add, filledSide_add, hcap] at *
      omega
  exact ⟨hb.trans h.bufferSound, hpr.trans h.producersSound, hbooks.1, hbooks.2⟩

theorem Exact.askFilled (h : q.Exact others) : q.Exact ({.askFilled} + others) := by
  obtain ⟨h₁, h₂, -⟩ := q.sides_askFilled others
  exact ⟨h.bufferSound, h.producersSound, h₁.trans h.freeSide_eq, h₂.trans h.filledSide_eq⟩

/-- When no call holds anything, the permits are just the slots. -/
theorem Exact.permits {phases : Multiset (Phase α)} (h : q.Exact phases)
    (hnone : ∀ p ∈ phases, p.burden = .nothing) :
    q.free.permits + q.len = q.capacity ∧ q.filled.permits = q.len := by
  have hzero (b : Burden) (hb : b ≠ .nothing) : carried b phases = 0 :=
    Multiset.countP_eq_zero.2 fun p hp he => hb (he.symm.trans (hnone p hp))
  have hfree := h.freeSide_eq
  have hfilled := h.filledSide_eq
  rw [freeSide, hzero .freePermit (by decide), hzero .vacantSlot (by decide)] at hfree
  rw [filledSide, hzero .filledPermit (by decide), hzero .filledSlot (by decide)] at hfilled
  exact ⟨hfree, hfilled⟩

/-! ## A fresh queue -/

theorem within_fresh {capacity : Nat} (hpos : 0 < capacity) (hle : capacity ≤ Semaphore.maxPermits)
    (onEnqueue onDequeue : Option (Hook α)) (log : Logbook) :
    (fresh capacity onEnqueue onDequeue log).Within 0 where
  freeSound := rfl
  filledSound := rfl
  ringSound := Ring.sound_empty hpos
  capacity_eq := Ring.capacity_empty _
  capacity_le := hle
  freeSide_le := Nat.le_refl _
  permitsInAll_le := Nat.le_refl _

theorem exact_fresh (capacity : Nat) (onEnqueue onDequeue : Option (Hook α)) (log : Logbook) :
    (fresh capacity onEnqueue onDequeue log).Exact 0 where
  bufferSound := rfl
  producersSound := rfl
  freeSide_eq := rfl
  filledSide_eq := rfl

end Queue

end BoundedQueue
