import BoundedQueue.Proofs.Queue.Permits

/-!
# What can go wrong in a section

The books of a queue get out of step when a call panics, when a poisoned lock turns it away, or when
a clearing empties the ring and then stops.  What survives is that free slots are never promised
twice (`Within`), and that filled permits stand for filled slots (`Passage.filled_le`), unless a
clearing has popped entries and then stopped (`Passage.filled_le_or_halfway`).

* `Passage.selfMade_cases` says that a call never finds the ring full, and that it finds the ring
  empty in one place only, where it has a filled permit that stands for nothing.
* `Queue.panicked_cases` says that a section panics only because a hook or the logger does, and that
  either of them leaves a trace: the verdict is noted, or the trap has sprung.
* `Within.exists_of_store` and `Within.exists_of_returns` say that nothing stands in the way of a
  call that holds something: a free permit comes with a free slot, and a permit that is returned can
  be counted.
-/

set_option autoImplicit false

namespace BoundedQueue

variable {α : Type}

/-! ## Failures -/

/-- Whether a failure says that the queue is at odds with itself. -/
def Error.isSelfMade : Error → Bool
  | .inconsistent _ => true
  | _ => false

/-- The failure with which a call at a phase is going to end. -/
def Phase.error? : Phase α → Option Error
  | .refundFree _ e | .settle _ (some e) | .refundFilled e | .fail e => some e
  | _ => none

/-- The failure with which a call at a spot is going to end. -/
def Spot.error? : Spot α → Option Error
  | opening _ => none
  | phase p => p.error?

/-- The failure that a call has ended with after a move, or is going to end with. -/
def Move.error? : Move (Phase α) Side (Outcome α) → Option Error
  | .go p | .wait _ p | .signal _ p => p.error?
  | .finish (.failed e) => some e
  | .finish _ => none

/-- The semaphore to which a call at a phase returns a permit next. -/
def Phase.returns : Phase α → Option Side
  | .refundFree _ _ | .vacate _ => some .free
  | .publish _ | .refundFilled _ => some .filled
  | _ => none

/-- The failure of a call is that of its phase. -/
theorem Move.error?_of_mem {move : Move (Phase α) Side (Outcome α)} {p : Phase α}
    (h : p ∈ move.phases) : move.error? = p.error? := by
  cases move with
  | go | wait | signal => rw [Multiset.mem_singleton.1 h]; rfl
  | finish => cases h

namespace Queue

variable {q q' : Queue α} {spot : Spot α} {r : Option Remark}
  {move : Move (Phase α) Side (Outcome α)} {others : Multiset (Phase α)}

/-- **The queue finds itself at odds with itself in one place only**: with a filled permit in hand
and an empty ring.  Otherwise a call ends with such a failure only if it was about to. -/
theorem Passage.selfMade_cases (h : Passage q spot r q' move) {e : Error}
    (he : move.error? = some e) (hself : e.isSelfMade = true) :
    spot.error? = some e ∨
      e = .ringEmpty ∧ spot = .phase .fetch ∧ q.ring.peek? = none ∧ ∃ o, move = .finish o := by
  cases h with
  | refundFree | settleFarewell | settleFailed | refundFilled | fail => exact .inl he
  | fetchEmpty hb hr => cases he; exact .inr ⟨rfl, rfl, hr, _, rfl⟩
  | vacate find => cases find <;> cases he
  | storeRefused | storeRejected | fetchRefused | fetchRejected | popBlind | raiseRefused
    | lowerRefused | lowerUnmatched | installRefused | clearRefused | clearHalfway =>
    cases he
    cases hself
  | _ => cases he

/-! ## Panics -/

/-- The log of a passage is written by its remark only. -/
theorem Passage.log_eq (h : Passage q spot r q' move) : q'.log = q.log := by
  cases h with
  | storePanicked hb hc | storeRejected hb hc | push hb hc | popItem hb hc | popAbsorbed hb hc
    | popBlind hb hc | popConcluded hb hc =>
    obtain ⟨onE, onD, notes, -, rfl⟩ := exists_of_consult hc
    rfl
  | fetchPanicked hb hr hc | fetchRejected hb hr hc =>
    obtain ⟨onE, onD, notes, -, rfl⟩ := exists_of_consult hc
    rfl
  | @install stage => cases stage <;> rfl
  | _ => rfl

/-- A passage panics when the hook does that it shows the entry to. -/
theorem Passage.hook_panicked {text : String}
    (h : Passage q spot r q' (.finish (.panicked text))) :
    r = none ∧ ∃ stage entry, q'.history = .consulted stage entry (.panic text) :: q.history := by
  cases h with
  | storePanicked hb hc | fetchPanicked hb hr hc =>
    obtain ⟨onE, onD, notes, ⟨-, hv⟩ | rfl, rfl⟩ := exists_of_consult hc
    · cases hv
    · exact ⟨rfl, _, _, rfl⟩

theorem trap_of_springs {log : Logbook} {r : Record} (h : log.springs r = true) :
    log.trap ≠ none ∧ (log.write r).trap = none := by
  refine ⟨fun hnone => ?_, if_pos h⟩
  rw [Logbook.springs, hnone] at h
  cases h

/-- A remark makes the logger panic if it springs the trap, and is harmless otherwise. -/
theorem remarked_move (q : Queue α) (move : Move (Phase α) Side (Outcome α))
    (r : Option Remark) :
    (q.remarked move r).2 = move ∧ (q.remarked move r).1.log.trap = q.log.trap ∨
      (q.remarked move r).2 = .finish (.panicked Logbook.panicText) ∧
        q.log.trap ≠ none ∧ (q.remarked move r).1.log.trap = none := by
  rcases r with - | ⟨r, lock⟩
  · exact .inl ⟨rfl, rfl⟩
  · by_cases h : q.log.springs r = true
    · obtain ⟨hset, hsprung⟩ := trap_of_springs h
      refine .inr ⟨?_, hset, ?_⟩
      · cases lock <;> simp only [remarked, logged, loggedUnder, if_pos h]
      · rcases lock with - | ⟨_ | _⟩ <;>
          simp only [remarked, logged, loggedUnder, if_pos h, record, poison, hsprung]
    · refine .inl ⟨?_, ?_⟩
      · cases lock <;> simp only [remarked, logged, loggedUnder, if_neg h]
      · cases lock <;>
          simp only [remarked, logged, loggedUnder, if_neg h, record, Logbook.write]

/-- The hook panics in a section, which notes its verdict, or the logger does, whose trap
springs. -/
theorem panicked_cases (h : q.Workable spot) {text : String}
    (hsec : (q.sectionAt spot).2 = .finish (.panicked text)) :
    (∃ stage entry,
        (q.sectionAt spot).1.history = .consulted stage entry (.panic text) :: q.history) ∨
      text = Logbook.panicText ∧ q.log.trap ≠ none ∧ (q.sectionAt spot).1.log.trap = none := by
  obtain ⟨r, q', move, hp, hq⟩ := exists_passage h
  rw [hq] at hsec ⊢
  rcases q'.remarked_move move r with ⟨hm, -⟩ | ⟨hm, hset, hsprung⟩
  · obtain rfl := hm.symm.trans hsec
    obtain ⟨rfl, stage, entry, hnote⟩ := hp.hook_panicked
    exact .inl ⟨stage, entry, hnote⟩
  · cases hm.symm.trans hsec
    rw [hp.log_eq] at hset
    exact .inr ⟨rfl, hset, hsprung⟩

/-- No section sets a trap. -/
theorem trap_sectionAt (h : q.Workable spot) (ht : (q.sectionAt spot).1.log.trap ≠ none) :
    q.log.trap ≠ none := by
  obtain ⟨r, q', move, hp, hq⟩ := exists_passage h
  rw [hq] at ht
  rw [← hp.log_eq]
  rcases q'.remarked_move move r with ⟨-, hsame⟩ | ⟨-, hset, -⟩
  · exact hsame ▸ ht
  · exact hset

/-! ## Filled permits and filled slots -/

/-- Outside of a clearing, filled permits go with filled slots. -/
theorem Passage.filled_le (h : Passage q spot r q' move) (hring : q.ring.Sound)
    (hspot : spot ≠ .opening .clear) :
    q'.filledSide move.phases + q.len ≤ q.filledSide spot.phases + q'.len := by
  simp only [filledSide, carried_spot, ne_eq, reduceCtorEq, not_false_eq_true, len]
  cases h with
  | takeFree hs hp | waitFree hs ha hp =>
    simp [burden_of_asksFree hs, Move.phases, Phase.burden]
  | takeFilled hs hp | waitFilled hs hp =>
    simp [burden_of_asksFilled hs, Move.phases, Phase.burden]
    try omega
  | storePanicked hb hc | storeRejected hb hc | fetchPanicked hb hr hc | fetchRejected hb hr hc =>
    obtain ⟨onE, onD, notes, -, rfl⟩ := exists_of_consult hc
    simp [Move.phases, Spot.burden, Phase.burden, poison]
  | push hb hc hr =>
    obtain ⟨onE, onD, notes, -, rfl⟩ := exists_of_consult hc
    have := Ring.len_push hr
    simp [Move.phases, Spot.burden, Phase.burden, note]
    omega
  | popItem hb hc hr | popAbsorbed hb hc hr | popConcluded hb hc hr | popBlind hb hc hr =>
    obtain ⟨onE, onD, notes, -, rfl⟩ := exists_of_consult hc
    have := hring.len_pop hr
    simp [Move.phases, Spot.burden, Phase.burden, note]
    omega
  | vacate find => cases find <;> simp [Move.phases, Spot.burden, Phase.burden, afterVacating]
  | clear | clearHalfway | clearRefused => exact absurd rfl hspot
  | install => simp [Move.phases, Spot.burden, setHook]; split <;> simp
  | _ => simp [Move.phases, Spot.burden, Phase.burden, note]

/-- What becomes of filled permits and filled slots: they stay in step, or a clearing has popped
what was in the ring and stopped at the poisoned producers lock. -/
theorem Passage.filled_le_or_halfway (h : Passage q spot r q' move) (hring : q.ring.Sound)
    (halone : spot = .opening .clear → others = 0)
    (hle : q.filledSide (spot.phases + others) ≤ q.len) :
    q'.filledSide (move.phases + others) ≤ q'.len ∨
      spot = .opening .clear ∧ q.producersPoisoned = true ∧
        q'.history = .emptied :: q.history ∧ q'.len = 0 ∧ 0 < q.len := by
  by_cases hspot : spot = .opening .clear
  · obtain rfl := halone hspot
    subst hspot
    cases h with
    | clearHalfway hb hp =>
      rcases q.len.eq_zero_or_pos with hlen | hlen
      · exact .inl ((hlen ▸ hle).trans (Nat.zero_le _))
      · exact .inr ⟨rfl, hp, rfl, rfl, hlen⟩
    | clearRefused => exact .inl hle
    | clear => exact .inl (by simp [Move.phases, filledSide, len, Ring.clear, Ring.empty])
    | takeFree hs | waitFree hs | takeFilled hs | waitFilled hs => cases hs
  · have hbooks := h.filled_le hring hspot
    rw [filledSide_add] at hle ⊢
    exact .inl (by omega)

/-! ## Permits that are taken and returned -/

theorem permits_of_take {s rest : Semaphore} (h : s.take = .granted rest) :
    rest.permits + 1 = s.permits := by
  rw [Semaphore.take] at h
  split at h
  · cases h
  · split at h
    · cases h
    · next hne =>
      cases h
      exact Nat.succ_pred_eq_of_pos (Nat.pos_of_ne_zero hne)

theorem exists_of_give {s : Semaphore} {capacity : Nat} (hs : s.poisoned = false)
    (hlt : s.permits < capacity) (hle : capacity ≤ Semaphore.maxPermits) :
    ∃ after, s.give = .given after ∧ after.permits = s.permits + 1 ∧ after.permits ≤ capacity := by
  refine ⟨{ s with permits := s.permits + 1 }, ?_, rfl, hlt⟩
  rw [Semaphore.give, if_neg (by simp [hs]), if_neg (by omega)]

theorem Within.permits_le {phases : Multiset (Phase α)} (h : q.Within phases) (side : Side) :
    (q.semaphore side).permits ≤ q.capacity := by
  have hfree := h.freeSide_le
  have hall := h.permitsInAll_le
  simp only [freeSide, permitsInAll, filledSide] at hfree hall
  cases side with
  | free => simp only [semaphore]; omega
  | filled => simp only [semaphore]; omega

/-- A permit that a call is about to return is one that it holds, or stands for a slot that it
holds, so there is room for it in the count. -/
theorem Within.exists_of_returns {p : Phase α} {side : Side}
    (h : q.Within ((Spot.phase p).phases + others)) (hp : p.returns = some side) :
    ∃ after, (q.semaphore side).give = .given after ∧
      after.permits = (q.semaphore side).permits + 1 ∧ after.permits ≤ q.capacity := by
  have hfree := h.freeSide_le
  have hall := h.permitsInAll_le
  simp only [freeSide, permitsInAll, filledSide, Spot.phases, carried_add,
    carried_singleton] at hfree hall
  cases p with
  | refundFree | vacate =>
    cases hp
    refine exists_of_give h.freeSound ?_ h.capacity_le
    simp [semaphore, Phase.burden] at hfree ⊢
    omega
  | publish | refundFilled =>
    cases hp
    refine exists_of_give h.filledSound ?_ h.capacity_le
    simp [semaphore, Phase.burden] at hall ⊢
    omega
  | _ => cases hp

/-- A call with a free permit finds a free slot. -/
theorem Within.exists_of_store {errand : Errand α}
    (h : q.Within ((Spot.phase (.store errand)).phases + others)) : ∃ ring,
      q.ring.push? errand.entry = some ring ∧ ring.len = q.ring.len + 1 ∧
        ring.len ≤ q.capacity := by
  have hroom := h.workable.ringRoom rfl
  rcases hr : q.ring.push? errand.entry with - | ring
  · exact absurd ((Ring.push?_eq_none_iff _ _).1 hr) hroom
  · have hlen := Ring.len_push hr
    have hle := h.ringSound.len_le
    have hcap := h.capacity_eq
    exact ⟨ring, rfl, hlen, by omega⟩

/-- What is seen at the head of a sound ring can be popped. -/
theorem exists_of_peek {ring : Ring (Entry α)} {entry : Entry α} (hring : ring.Sound)
    (h : ring.peek? = some entry) :
    ∃ rest, ring.pop? = some (entry, rest) ∧ rest.len + 1 = ring.len := by
  have hpop : ∃ rest, ring.pop? = some (entry, rest) := by
    rw [Ring.pop?, h]
    exact ⟨_, rfl⟩
  obtain ⟨rest, hr⟩ := hpop
  exact ⟨rest, hr, (hring.len_pop hr).symm⟩

/-! ## Registrations -/

/-- How often a producer was registered. -/
def registrations (q : Queue α) : Nat :=
  q.history.countP fun
    | .raised => true
    | _ => false

/-- Producers are counted up by registrations only. -/
theorem Passage.producers_le (h : Passage q spot r q' move) :
    q'.producers + q.registrations ≤ q.producers + q'.registrations := by
  cases h with
  | storePanicked hb hc | storeRejected hb hc | push hb hc | popItem hb hc | popAbsorbed hb hc
    | popBlind hb hc | popConcluded hb hc =>
    obtain ⟨onE, onD, notes, ⟨rfl, -⟩ | rfl, rfl⟩ := exists_of_consult hc <;>
      simp [registrations, note, poison]
  | fetchPanicked hb hr hc | fetchRejected hb hr hc =>
    obtain ⟨onE, onD, notes, ⟨rfl, -⟩ | rfl, rfl⟩ := exists_of_consult hc <;>
      simp [registrations, poison]
  | @install stage => cases stage <;> simp [registrations, setHook]
  | raise | leaveOut | clearHalfway | clear => simp [registrations, note]; try omega
  | lower hp hn => simp [registrations, note]; omega
  | _ => exact Nat.le_refl _

end Queue

end BoundedQueue
