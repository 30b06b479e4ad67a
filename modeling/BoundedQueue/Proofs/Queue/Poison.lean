import BoundedQueue.Proofs.Queue.Faults
import BoundedQueue.Proofs.Queue.Flow

/-!
# Poisoned locks

A panic under a lock poisons it for good.  What the lock guards is then frozen, and a call that
comes to the lock is turned away.

* `Remarks` says what becomes of a remark: it is written, or the logger panics at it, and poisons
  the lock under which it was made.
* `Passage.frozen` is about the buffer lock and what it guards, `Passage.producers_frozen` about the
  producers lock and the count.
* `Call.Balks` lists what a call can end with that begins when the buffer lock is poisoned.  Until
  it ends, it stays at phases that are `barred`.
-/

set_option autoImplicit false

namespace BoundedQueue

variable {α : Type}

/-! ## Calls and the two locks -/

namespace Spot

/-- Whether the section at a spot begins by taking the buffer lock. -/
def locksBuffer : Spot α → Bool
  | opening (.install _ _) | opening .clear | phase (.store _) | phase .fetch => true
  | _ => false

theorem locksBuffer_of_asksFree {spot : Spot α} {errand : Errand α}
    (h : spot.asksFree = some errand) : spot.locksBuffer = false := by
  unfold asksFree at h
  split at h <;> first | rfl | cases h

theorem locksBuffer_of_asksFilled {spot : Spot α} (h : spot.asksFilled = true) :
    spot.locksBuffer = false := by
  unfold asksFilled at h
  split at h <;> first | rfl | cases h

end Spot

/-- Whether a call at a phase has yet to come to the buffer lock, or was turned away there. -/
def Phase.barred : Phase α → Bool
  | .askFree _ | .awaitFree _ | .store _ | .askFilled | .awaitFilled | .fetch => true
  | .settle _ (some e) => e = Lock.buffer.error
  | _ => false

/-- What a call can end with that begins when the buffer lock refuses service, unless the logger
panics. -/
def Call.Balks (c : Call α) (o : Outcome α) : Prop :=
  match c with
  | .enqueue _ | .dequeue | .install _ _ | .clear => o = .failed Lock.buffer.error
  | .tryEnqueue a => o = .full a ∨ o = .failed Lock.buffer.error
  | .register => o = .done ∨ o = .failed Lock.producers.error
  | .deregister =>
    o = .failed Lock.buffer.error ∨ o = .failed Lock.producers.error ∨ o = .failed .noProducers

namespace Queue

variable {q q' : Queue α} {spot : Spot α} {r : Option Remark}
  {move : Move (Phase α) Side (Outcome α)}

/-! ## Remarks -/

/-- The queue after the logger panicked at a remark. -/
def sprung (q : Queue α) (remark : Remark) : Queue α :=
  match remark.under with
  | none => q.record remark.record
  | some lock => (q.record remark.record).poison lock

/-- What becomes of the remark of a section that leaves the queue `q` and ends in a move. -/
inductive Remarks (q : Queue α) (move : Move (Phase α) Side (Outcome α)) :
    Option Remark → Section α → Prop where
  | none : Remarks q move none (q, move)
  | written {remark : Remark} (h : q.log.springs remark.record = false) :
      Remarks q move (some remark) (q.record remark.record, move)
  | sprung {remark : Remark} (h : q.log.springs remark.record = true) :
      Remarks q move (some remark) (q.sprung remark, .finish (.panicked Logbook.panicText))

theorem remarks_remarked (q : Queue α) (move : Move (Phase α) Side (Outcome α))
    (r : Option Remark) : Remarks q move r (q.remarked move r) := by
  rcases r with - | ⟨record, under⟩
  · exact .none
  · by_cases h : q.log.springs record = true
    · have hsprung : q.remarked move (some ⟨record, under⟩) =
          (q.sprung ⟨record, under⟩, .finish (.panicked Logbook.panicText)) := by
        cases under <;> simp only [remarked, logged, loggedUnder, if_pos h, Queue.sprung]
      rw [hsprung]
      exact .sprung h
    · have hwritten : q.remarked move (some ⟨record, under⟩) = (q.record record, move) := by
        cases under <;> simp only [remarked, logged, loggedUnder, if_neg h]
      rw [hwritten]
      exact .written (by simpa using h)

/-- A remark that is made under no lock is written, and that is all that becomes of the queue. -/
theorem remarked_fst (q : Queue α) (move : Move (Phase α) Side (Outcome α)) (record : Record) :
    (q.remarked move (some ⟨record, none⟩)).1 = q.record record := by
  rw [remarked, logged]
  split <;> rfl

/-- The section at a spot is a passage, with a remark of which something becomes. -/
theorem exists_remarks (h : q.Workable spot) :
    ∃ r q' move, Passage q spot r q' move ∧ Remarks q' move r (q.sectionAt spot) := by
  obtain ⟨r, q', move, hp, hsec⟩ := exists_passage h
  exact ⟨r, q', move, hp, hsec ▸ q'.remarks_remarked move r⟩

/-! ## The buffer lock -/

/-- The buffer lock refuses service, what it guards is as it was, and no hook was asked. -/
structure Frozen (q q' : Queue α) : Prop where
  poisoned : q'.bufferPoisoned = true
  ring_eq : q'.ring = q.ring
  hooks_eq : ∀ stage, q'.hook? stage = q.hook? stage
  shown_eq : shownIn q'.history = shownIn q.history

theorem Frozen.refl (h : q.bufferPoisoned = true) : Frozen q q := ⟨h, rfl, fun _ => rfl, rfl⟩

theorem Frozen.trans {q'' : Queue α} (h : Frozen q q') (h' : Frozen q' q'') : Frozen q q'' :=
  ⟨h'.poisoned, h'.ring_eq.trans h.ring_eq,
    fun stage => (h'.hooks_eq stage).trans (h.hooks_eq stage), h'.shown_eq.trans h.shown_eq⟩

/-- It does not matter what is logged, or whether the logger panics. -/
theorem Frozen.sprung (h : Frozen q q') (remark : Remark) : Frozen q (q'.sprung remark) := by
  obtain ⟨hpoisoned, hring, hhooks, hshown⟩ := h
  obtain ⟨record, - | - | -⟩ := remark
  · exact ⟨hpoisoned, hring, hhooks, hshown⟩
  · exact ⟨rfl, hring, hhooks, hshown⟩
  · exact ⟨hpoisoned, hring, hhooks, hshown⟩

/-- **What the poisoned buffer lock guards is frozen.** -/
theorem Passage.frozen (h : Passage q spot r q' move) (hb : q.bufferPoisoned = true) :
    Frozen q q' := by
  cases h with
  | storePanicked hb' | storeRejected hb' | push hb' | fetchEmpty hb' | fetchPanicked hb'
    | fetchRejected hb' | popItem hb' | popAbsorbed hb' | popBlind hb' | popConcluded hb'
    | install hb' | clearHalfway hb' | clear hb' => cases hb.symm.trans hb'
  | raise | lower | leaveOut => exact ⟨hb, rfl, fun _ => rfl, rfl⟩
  | _ => exact ⟨hb, rfl, fun _ => rfl, rfl⟩

theorem frozen_sectionAt (h : q.Workable spot) (hb : q.bufferPoisoned = true) :
    Frozen q (q.sectionAt spot).1 := by
  obtain ⟨r, q', move, hp, hr⟩ := exists_remarks h
  have hfrozen := hp.frozen hb
  generalize q.sectionAt spot = s at hr
  cases hr with
  | none => exact hfrozen
  | written => exact ⟨hfrozen.poisoned, hfrozen.ring_eq, hfrozen.hooks_eq, hfrozen.shown_eq⟩
  | sprung => exact hfrozen.sprung _

/-- A call that comes to the poisoned buffer lock is over, or is to settle with the failure. -/
theorem Passage.turned_away (h : Passage q spot r q' move) (hb : q.bufferPoisoned = true)
    (hs : spot.locksBuffer = true) :
    move = .finish (.failed Lock.buffer.error) ∨
      ∃ errand, move = .go (.settle errand (some Lock.buffer.error)) := by
  cases h with
  | storeRefused errand => exact .inr ⟨errand, rfl⟩
  | fetchRefused | installRefused | clearRefused => exact .inl rfl
  | storePanicked hb' | storeRejected hb' | push hb' | fetchEmpty hb' | fetchPanicked hb'
    | fetchRejected hb' | popItem hb' | popAbsorbed hb' | popBlind hb' | popConcluded hb'
    | install hb' | clearHalfway hb' | clear hb' => cases hb.symm.trans hb'
  | takeFree hs' | waitFree hs' => cases (Spot.locksBuffer_of_asksFree hs').symm.trans hs
  | takeFilled hs' | waitFilled hs' => cases (Spot.locksBuffer_of_asksFilled hs').symm.trans hs
  | _ => cases hs

/-- A call that settles with a failure ends with it. -/
theorem Passage.of_settle {errand : Errand α} {e : Error}
    (h : Passage q (.phase (.settle errand (some e))) r q' move) : move = .finish (.failed e) := by
  cases h with
  | settleFarewell | settleFailed => rfl
  | takeFree hs | waitFree hs | takeFilled hs | waitFilled hs => cases hs

/-- A call that has yet to come to the poisoned buffer lock does not get past it. -/
theorem Passage.barred (h : Passage q spot r q' move) (hb : q.bufferPoisoned = true)
    (hs : ∀ p ∈ spot.phases, p.barred = true) : ∀ p ∈ move.phases, p.barred = true := by
  have hbarred {p : Phase α} (hp : p.barred = true) : ∀ p' ∈ ({p} : Multiset (Phase α)),
      p'.barred = true := fun p' hp' => Multiset.mem_singleton.1 hp' ▸ hp
  have hspot {p : Phase α} (hp : spot = .phase p) : p.barred = true :=
    hs p (hp ▸ Multiset.mem_singleton_self p)
  cases h with
  | takeFree | waitFree | storeRefused | takeFilled | waitFilled | lower => exact hbarred rfl
  | storePanicked hb' | storeRejected hb' | push hb' | fetchEmpty hb' | fetchPanicked hb'
    | fetchRejected hb' | popItem hb' | popAbsorbed hb' | popBlind hb' | popConcluded hb'
    | install hb' | clearHalfway hb' | clear hb' => cases hb.symm.trans hb'
  | refundFree | publish | refundFilled | vacate | passOn => cases hspot rfl
  | _ => exact fun p hp => absurd hp (Multiset.notMem_zero p)

/-- **A call that begins when the buffer lock is poisoned balks at it**, or ends before. -/
theorem Passage.balks {c : Call α} {o : Outcome α} (h : Passage q spot r q' (.finish o))
    (hb : q.bufferPoisoned = true) (hs : ∀ p ∈ spot.phases, p.barred = true)
    (hc : c.Reaches spot) : c.Balks o := by
  have hspot {p : Phase α} (hp : spot = .phase p) : p.barred = true :=
    hs p (hp ▸ Multiset.mem_singleton_self p)
  -- a call that settles with the failure of the buffer lock was to put an entry or to take one
  have hsettle {errand : Errand α} {e : Error} (hp : spot = .phase (.settle errand (some e))) :
      c.Balks (.failed e) := by
    obtain rfl : e = Lock.buffer.error := of_decide_eq_true (hspot hp)
    subst hp
    cases c with
    | enqueue | dequeue => rfl
    | tryEnqueue => exact .inr rfl
    | deregister => exact .inl rfl
    | register | install | clear => exact hc.elim
  cases h with
  | full => cases hc; exact .inl rfl
  | settleFarewell | settleFailed => exact hsettle rfl
  | fetchRefused => cases Call.eq_dequeue hc rfl; rfl
  | raiseRefused => cases hc; exact .inr rfl
  | raise => cases hc; exact .inl rfl
  | lowerRefused => cases hc; exact .inr (.inl rfl)
  | lowerUnmatched => cases hc; exact .inr (.inr rfl)
  | installRefused | clearRefused => cases hc; rfl
  | storePanicked hb' | fetchEmpty hb' | fetchPanicked hb' | popBlind hb' | install hb'
    | clearHalfway hb' | clear hb' => cases hb.symm.trans hb'
  | settleRelay | settleDone | handOver | fail | leaveOut => cases hspot rfl

/-! ## The producers lock -/

/-- **What the poisoned producers lock guards is frozen.** -/
theorem Passage.producers_frozen (h : Passage q spot r q' move)
    (hp : q.producersPoisoned = true) :
    q'.producersPoisoned = true ∧ q'.producers = q.producers := by
  cases h with
  | raise hp' | lower hp' | clear _ hp' => cases hp.symm.trans hp'
  | storePanicked hb hc | storeRejected hb hc | push hb hc | popItem hb hc | popAbsorbed hb hc
    | popBlind hb hc | popConcluded hb hc =>
    obtain ⟨onE, onD, notes, -, rfl⟩ := exists_of_consult hc
    exact ⟨hp, rfl⟩
  | fetchPanicked hb hr hc | fetchRejected hb hr hc =>
    obtain ⟨onE, onD, notes, -, rfl⟩ := exists_of_consult hc
    exact ⟨hp, rfl⟩
  | @install stage => cases stage <;> exact ⟨hp, rfl⟩
  | _ => exact ⟨hp, rfl⟩

theorem producers_frozen_sectionAt (h : q.Workable spot) (hp : q.producersPoisoned = true) :
    (q.sectionAt spot).1.producersPoisoned = true ∧
      (q.sectionAt spot).1.producers = q.producers := by
  obtain ⟨r, q', move, hpassage, hr⟩ := exists_remarks h
  obtain ⟨hpoisoned, hcount⟩ := hpassage.producers_frozen hp
  generalize q.sectionAt spot = s at hr
  cases hr with
  | none | written => exact ⟨hpoisoned, hcount⟩
  | @sprung remark =>
    obtain ⟨record, - | - | -⟩ := remark
    · exact ⟨hpoisoned, hcount⟩
    · exact ⟨hpoisoned, hcount⟩
    · exact ⟨rfl, hcount⟩

/-- A registration or deregistration that comes to the poisoned producers lock is over at once, and
leaves the queue as it is. -/
theorem Passage.shut_out {c : Call α} (h : Passage q (.opening c) r q' move)
    (hp : q.producersPoisoned = true) (hc : c = .register ∨ c = .deregister) :
    r = some ⟨.producersPoisoned, none⟩ ∧ q' = q ∧
      move = .finish (.failed Lock.producers.error) := by
  rcases hc with rfl | rfl
  · cases h with
    | raiseRefused => exact ⟨rfl, rfl, rfl⟩
    | raise hp' => cases hp.symm.trans hp'
    | takeFree hs | waitFree hs | takeFilled hs | waitFilled hs => cases hs
  · cases h with
    | lowerRefused => exact ⟨rfl, rfl, rfl⟩
    | lowerUnmatched hp' | lower hp' => cases hp.symm.trans hp'
    | takeFree hs | waitFree hs | takeFilled hs | waitFilled hs => cases hs

/-- A clearing that comes to the poisoned producers lock is over, unless it does not get as far as
that. -/
theorem Passage.clear_shut_out (h : Passage q (.opening .clear) r q' move)
    (hp : q.producersPoisoned = true) :
    move = .finish (.failed Lock.producers.error) ∨
      q.bufferPoisoned = true ∧ move = .finish (.failed Lock.buffer.error) := by
  cases h with
  | clearRefused hb => exact .inr ⟨hb, rfl⟩
  | clearHalfway => exact .inl rfl
  | clear _ hp' => cases hp.symm.trans hp'
  | takeFree hs | waitFree hs | takeFilled hs | waitFilled hs => cases hs

/-- Nobody comes upon the end of input while the producers lock is poisoned. -/
theorem Passage.sound_of_concluded (h : Passage q spot r q' move) {notes : List (Note α)}
    (hn : q'.history = notes ++ q.history) (hc : .concluded ∈ notes) :
    q.producersPoisoned = false := by
  have hnotes (notes' : List (Note α)) (hn' : q'.history = notes' ++ q.history) :
      notes' = notes := List.append_cancel_right (hn'.symm.trans hn)
  cases h with
  | popConcluded _ _ _ _ hp => exact hp
  | storePanicked hb hc' | storeRejected hb hc' | fetchPanicked hb hr hc'
    | fetchRejected hb hr hc' =>
    obtain ⟨onE, onD, shown, hshown, rfl⟩ := exists_of_consult hc'
    obtain rfl := hnotes shown rfl
    cases eq_of_shown hshown hc
  | push hb hc' | popItem hb hc' | popBlind hb hc' =>
    obtain ⟨onE, onD, shown, hshown, rfl⟩ := exists_of_consult hc'
    obtain rfl := hnotes (_ :: shown) rfl
    simp only [List.mem_cons, reduceCtorEq, false_or] at hc
    cases eq_of_shown hshown hc
  | popAbsorbed hb hc' =>
    obtain ⟨onE, onD, shown, hshown, rfl⟩ := exists_of_consult hc'
    obtain rfl := hnotes (_ :: _ :: shown) rfl
    simp only [List.mem_cons, reduceCtorEq, false_or] at hc
    cases eq_of_shown hshown hc
  | raise | lower | leaveOut | clearHalfway =>
    obtain rfl := hnotes [_] rfl
    simp at hc
  | clear =>
    obtain rfl := hnotes [.renewed, .emptied] rfl
    simp at hc
  | @install stage =>
    obtain rfl := hnotes [] (by cases stage <;> rfl)
    cases hc
  | _ =>
    obtain rfl := hnotes [] rfl
    cases hc

/-- A call that ends at the end of input pops nothing any more. -/
theorem Passage.pops_nothing (h : Passage q spot r q' (.finish .drained)) {notes : List (Note α)}
    (hn : q'.history = notes ++ q.history) : notes.filterMap Note.popped? = [] := by
  have hnotes (notes' : List (Note α)) (hn' : q'.history = notes' ++ q.history) :
      notes' = notes := List.append_cancel_right (hn'.symm.trans hn)
  cases h with
  | settleRelay => rw [← hnotes [] rfl]; rfl
  | leaveOut => rw [← hnotes [_] rfl]; rfl

end Queue

end BoundedQueue
