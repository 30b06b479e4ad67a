import BoundedQueue.Proofs.Queue.Hooks
import BoundedQueue.Proofs.Queue.Poison

/-!
# What poisons a lock

A section makes its remark under a lock, or after it has let go of all locks; a panic of the logger
poisons just the lock that is held.  Hooks are called under the buffer lock.

* `Passage.isPoisoned_iff` and `Remarks.isPoisoned_iff` say what poisons a lock.
* `Passage.under_producers_iff` and `Passage.under_buffer_iff` say which remarks are made under
  which lock; the others are made under none.
-/

set_option autoImplicit false

namespace BoundedQueue

variable {α : Type}

/-- Whether a record tells what became of the count of producers. -/
def Record.tellsCount : Record → Bool
  | registered _ | deregistered _ | unmatchedDeregister => true
  | _ => false

namespace Queue

variable {q q' : Queue α} {spot : Spot α} {r : Option Remark}
  {move : Move (Phase α) Side (Outcome α)} {notes : List (Note α)}

/-! ## Hooks -/

/-- A section poisons a lock by itself if a hook panics, and then the buffer lock. -/
theorem Passage.isPoisoned_iff (h : Passage q spot r q' move) (lock : Lock) :
    q'.isPoisoned lock = true ↔
      q.isPoisoned lock = true ∨ lock = .buffer ∧ ∃ text, move = .finish (.panicked text) := by
  cases h with
  | storePanicked hb hc | fetchPanicked hb hr hc =>
    obtain ⟨onE, onD, shown, -, rfl⟩ := exists_of_consult hc
    cases lock <;> simp [isPoisoned, poison]
  | storeRejected hb hc | push hb hc | popItem hb hc | popAbsorbed hb hc | popBlind hb hc
    | popConcluded hb hc =>
    obtain ⟨onE, onD, shown, -, rfl⟩ := exists_of_consult hc
    cases lock <;> simp [isPoisoned, note]
  | fetchRejected hb hr hc =>
    obtain ⟨onE, onD, shown, -, rfl⟩ := exists_of_consult hc
    cases lock <;> simp [isPoisoned]
  | @install stage => cases stage <;> cases lock <;> simp [isPoisoned, setHook]
  | _ => cases lock <;> simp [isPoisoned, note]

/-! ## The logger -/

@[simp] theorem log_sprung (q : Queue α) (remark : Remark) :
    (q.sprung remark).log = q.log.write remark.record := by
  obtain ⟨record, - | lock⟩ := remark
  · rfl
  · cases lock <;> rfl

@[simp] theorem isPoisoned_record (q : Queue α) (record : Record) (lock : Lock) :
    (q.record record).isPoisoned lock = q.isPoisoned lock := by
  cases lock <;> rfl

theorem isPoisoned_poison (q : Queue α) (lock lock' : Lock) :
    (q.poison lock').isPoisoned lock = true ↔ q.isPoisoned lock = true ∨ lock' = lock := by
  cases lock <;> cases lock' <;> simp [poison, isPoisoned]

/-- The logger poisons the lock under which the remark is made at which it panics. -/
theorem Remarks.isPoisoned_iff {s : Section α} (h : Remarks q move r s) (lock : Lock) :
    s.1.isPoisoned lock = true ↔ q.isPoisoned lock = true ∨
      ∃ remark, r = some remark ∧ q.log.springs remark.record = true ∧
        remark.under = some lock := by
  cases h with
  | none => simp
  | written hs => simp [hs]
  | @sprung remark hs =>
    obtain ⟨record, - | lock'⟩ := remark
    · simp [Queue.sprung]
    · simp [Queue.sprung, isPoisoned_poison, hs]

/-- It does not show in the ring, in the count or in the history what becomes of a remark. -/
theorem Remarks.same {s : Section α} (h : Remarks q move r s) :
    s.1.ring = q.ring ∧ s.1.producers = q.producers ∧ s.1.history = q.history := by
  cases h with
  | none | written => exact ⟨rfl, rfl, rfl⟩
  | @sprung remark hs =>
    obtain ⟨record, - | - | -⟩ := remark <;> exact ⟨rfl, rfl, rfl⟩

/-- What is remarked under the producers lock is what became of the count. -/
theorem Passage.under_producers_iff {remark : Remark} (h : Passage q spot (some remark) q' move) :
    remark.under = some .producers ↔ remark.record.tellsCount = true := by
  generalize hr : some remark = r at h
  cases h <;> cases hr <;> simp [Record.tellsCount]

/-- A record that tells what became of the count tells the truth: the count is up, or down, or as it
was because there was nobody to deregister. -/
theorem Passage.count_told {record : Record} {under : Option Lock}
    (h : Passage q spot (some ⟨record, under⟩) q' move) (hr : record.tellsCount = true) :
    (spot = .opening .register ∧ record = .registered q'.producers ∧
        q'.producers = q.producers + 1) ∨
      (spot = .opening .deregister ∧ record = .deregistered q'.producers ∧
        q.producers = q'.producers + 1) ∨
      (spot = .opening .deregister ∧ record = .unmatchedDeregister ∧
        q.producers = 0 ∧ q'.producers = 0) := by
  cases h with
  | raise => exact .inl ⟨rfl, rfl, rfl⟩
  | lower _ hn => exact .inr (.inl ⟨rfl, rfl, hn⟩)
  | lowerUnmatched _ h0 => exact .inr (.inr ⟨rfl, rfl, h0, h0⟩)
  | _ => cases hr

/-- The only remark under the buffer lock is made by a call that has popped a marker and cannot tell
what it means, because the producers lock is poisoned. -/
theorem Passage.under_buffer_iff {remark : Remark} (h : Passage q spot (some remark) q' move)
    (hn : q'.history = notes ++ q.history) :
    remark.under = some .buffer ↔
      remark.record = .producersPoisoned ∧ .popped .eof ∈ notes := by
  have hnotes (notes' : List (Note α)) (hn' : q'.history = notes' ++ q.history) :
      notes' = notes := List.append_cancel_right (hn'.symm.trans hn)
  generalize hr : some remark = r at h
  cases h with
  | popBlind hb hc =>
    cases hr
    obtain ⟨onE, onD, shown, -, rfl⟩ := exists_of_consult hc
    obtain rfl := hnotes (_ :: shown) rfl
    simp
  | raiseRefused | lowerRefused =>
    cases hr
    obtain rfl := hnotes [] rfl
    simp
  | clearHalfway =>
    cases hr
    obtain rfl := hnotes [_] rfl
    simp
  | _ => cases hr <;> simp

/-- A call that has popped a marker and cannot tell what it means is one that takes an entry, and
has left the ring empty. -/
theorem Passage.of_under_buffer {record : Record} (hring : q.ring.Sound)
    (h : Passage q spot (some ⟨record, some .buffer⟩) q' move) :
    spot = .phase .fetch ∧ q.producersPoisoned = true ∧ q'.ring.contents = [] := by
  cases h with
  | popBlind hb hc hr hl hp =>
    obtain ⟨onE, onD, shown, -, rfl⟩ := exists_of_consult hc
    rw [(hring.pop hr).isEmpty_eq, List.isEmpty_iff] at hl
    exact ⟨rfl, hp, hl⟩

end Queue

end BoundedQueue
