import BoundedQueue.Proofs.Queue.Permits

/-!
# Permits that are lost

A call that panics, or that a poisoned lock turns away, does not return the permit that it holds;
nor does one that finds the ring at odds with its permit.  Nothing else loses a permit, and no call
loses two.

* `Phase.leak` is what a call has lost when it stands at a phase, and `Outcome.leak` what it has
  lost at most when it ends.  Who still holds a permit has not lost one (`Phase.leak_add_le_one`).
* `Passage.leak_le` says that a passage loses no more than it has to answer for.  It is not about
  clearings: one that succeeds frees every permit (`Passage.of_cleared`), and one that does not
  touches none (`Passage.permits_of_not_cleared`).
-/

set_option autoImplicit false

namespace BoundedQueue

variable {α : Type}

/-! ## What a call may have lost -/

/-- The permits that a call may lose that ends with a failure. -/
def Error.leak : Error → Nat
  | poisoned _ | inconsistent _ => 1
  | _ => 0

/-- The permits that a call may have lost when it ends. -/
def Outcome.leak : Outcome α → Nat
  | failed e => e.leak
  | panicked _ => 1
  | _ => 0

/-- The permits that a call may have lost when it stands at a phase: one that is going to fail and
does not hold its permit any more. -/
def Phase.leak : Phase α → Nat
  | .settle _ (some e) | .fail e => e.leak
  | _ => 0

/-- The permits that a call may have lost before the section at a spot. -/
def Spot.leak : Spot α → Nat
  | opening _ => 0
  | phase p => p.leak

/-- The permits that a call may have lost after a move. -/
def Move.leak : Move (Phase α) Side (Outcome α) → Nat
  | .go p | .wait _ p | .signal _ p => p.leak
  | .finish o => o.leak

theorem Error.leak_le_one (e : Error) : e.leak ≤ 1 := by
  cases e <;> simp [leak]

theorem Outcome.leak_le_one (o : Outcome α) : o.leak ≤ 1 := by
  cases o with
  | failed e => exact e.leak_le_one
  | _ => simp [leak]

/-- Who still holds something has not lost a permit. -/
theorem Phase.leak_add_le_one (p : Phase α) :
    (if p.burden = .nothing then 0 else 1) + p.leak ≤ 1 := by
  cases p with
  | settle errand e? =>
    cases e? with
    | none => exact Nat.zero_le _
    | some e => exact (Nat.zero_add _).trans_le e.leak_le_one
  | fail e => exact (Nat.zero_add _).trans_le e.leak_le_one
  | _ => simp [leak, burden]

section Spots

variable {spot : Spot α}

theorem leak_of_asksFree {errand : Errand α} (h : spot.asksFree = some errand) : spot.leak = 0 := by
  cases spot with
  | opening => rfl
  | phase p =>
    rcases Spot.of_asksFree h (Multiset.mem_singleton_self p) with rfl | rfl <;> rfl

theorem leak_of_asksFilled (h : spot.asksFilled = true) : spot.leak = 0 := by
  cases spot with
  | opening => rfl
  | phase p =>
    rcases Spot.of_asksFilled h (Multiset.mem_singleton_self p) with rfl | rfl <;> rfl

end Spots

namespace Queue

variable {q q' : Queue α} {spot : Spot α} {r : Option Remark}
  {move : Move (Phase α) Side (Outcome α)}

/-- **A passage loses no more permits than it has to answer for.** -/
theorem Passage.leak_le (h : Passage q spot r q' move) (hc : spot ≠ .opening .clear) :
    q.permitsInAll spot.phases + spot.leak ≤ q'.permitsInAll move.phases + move.leak := by
  simp only [permitsInAll, filledSide, carried_spot, ne_eq, reduceCtorEq, not_false_eq_true]
  cases h with
  | takeFree hs hp | waitFree hs ha hp =>
    simp [leak_of_asksFree hs, burden_of_asksFree hs, Move.phases, Phase.burden]
    try omega
  | takeFilled hs hp | waitFilled hs hp =>
    simp [leak_of_asksFilled hs, burden_of_asksFilled hs, Move.phases, Phase.burden]
    try omega
  | storePanicked hb hcon | storeRejected hb hcon | push hb hcon | popItem hb hcon
  | popAbsorbed hb hcon | popBlind hb hcon | popConcluded hb hcon =>
    obtain ⟨onE, onD, notes, -, rfl⟩ := exists_of_consult hcon
    simp [Move.phases, Move.leak, Outcome.leak, Lock.error, Error.leak, Spot.burden, Phase.burden,
      Spot.leak, Phase.leak, note, poison]
    try omega
  | fetchPanicked hb hr hcon | fetchRejected hb hr hcon =>
    obtain ⟨onE, onD, notes, -, rfl⟩ := exists_of_consult hcon
    simp [Move.phases, Move.leak, Outcome.leak, Spot.burden, Phase.burden, Spot.leak, Phase.leak,
      poison]
    try omega
  | vacate find =>
    cases find <;>
      simp [Move.phases, Move.leak, Spot.burden, Phase.burden, Spot.leak, Phase.leak, afterVacating]
  | clear | clearHalfway | clearRefused => exact absurd rfl hc
  | @install stage => cases stage <;> exact Nat.le_refl _
  | _ =>
    simp [Move.phases, Move.leak, Outcome.leak, Lock.error, Error.leak, Error.ringEmpty,
      Spot.burden, Phase.burden, Spot.leak, Phase.leak, note]
    try omega

theorem permitsInAll_singleton (q : Queue α) (p : Phase α) :
    q.permitsInAll {p} = q.permitsInAll 0 + if p.burden = .nothing then 0 else 1 := by
  simp only [permitsInAll, filledSide, carried_singleton, carried_zero]
  cases p.burden <;> simp <;> omega

/-- What a call holds after a move, and what it may have lost, is one permit at most. -/
theorem leak_le_of_move (q : Queue α) (move : Move (Phase α) Side (Outcome α)) :
    q.permitsInAll move.phases + move.leak ≤ q.permitsInAll 0 + 1 := by
  cases move with
  | go p | wait _ p | signal _ p =>
    have := p.leak_add_le_one
    rw [Move.phases, Move.leak, permitsInAll_singleton]
    omega
  | finish o => exact Nat.add_le_add_left o.leak_le_one _

/-- A clearing that succeeds frees every permit, and has nothing to remark. -/
theorem Passage.of_cleared (h : Passage q (.opening .clear) r q' (.finish .done)) :
    r = none ∧ q'.permitsInAll 0 = q.capacity := by
  cases h with
  | clear => exact ⟨rfl, by simp [permitsInAll, filledSide]⟩

/-- A clearing that does not succeed does not touch the permits. -/
theorem Passage.permits_of_not_cleared (h : Passage q (.opening .clear) r q' move)
    (hmove : move ≠ .finish .done) : q'.permitsInAll 0 = q.permitsInAll 0 := by
  cases h with
  | clearRefused | clearHalfway => rfl
  | clear => exact absurd rfl hmove
  | takeFree hs | waitFree hs | takeFilled hs | waitFilled hs => cases hs

end Queue

end BoundedQueue
