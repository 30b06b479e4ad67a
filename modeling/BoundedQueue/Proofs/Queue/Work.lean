import BoundedQueue.Proofs.Queue.Permits

/-!
# The work that calls take

A call never goes round in circles for nothing: what it leaves to do becomes less with every
section, unless it has filled a slot, and then the slot is stock for whoever empties it.
`Passage.work_le` says so for every passage.  It is what bounds the loops of a queue: a consumer
that absorbs marker after marker, an iteration that takes item after item, consumers that pass the
last marker on to each other, and waiters that are woken and find that somebody was faster.
-/

set_option autoImplicit false

namespace BoundedQueue

variable {α : Type}

namespace Queue

/-- The work that is left at a spot. -/
def spotWork : Spot α → Nat
  | .opening _ => callWork
  | .phase p => phaseWork p

/-- The work that is left after a section, with that of its own turn and of a task which it wakes.
A call that has got an item may be one of an iteration, which goes on to the next. -/
def workAfter : Move (Phase α) Side (Outcome α) → Nat
  | .go p => phaseWork p + 1
  | .wait _ p => phaseWork p
  | .signal _ p => phaseWork p + 2
  | .finish (.item _) => phaseWork (.askFilled : Phase α) + 1
  | .finish _ => 1

theorem workAfter_pos (move : Move (Phase α) Side (Outcome α)) : 1 ≤ workAfter move := by
  cases move with
  | go p | signal _ p => simp [workAfter]
  | wait _ p => cases p <;> simp [workAfter, phaseWork]
  | finish o => cases o <;> simp [workAfter]

variable {q q' : Queue α} {spot : Spot α} {r : Option Remark}
  {move : Move (Phase α) Side (Outcome α)}

theorem spotWork_of_asksFree {errand : Errand α} (h : spot.asksFree = some errand) :
    10 ≤ spotWork spot := by
  cases spot with
  | opening => simp [spotWork, callWork]
  | phase p =>
    rcases Spot.of_asksFree h (Multiset.mem_singleton_self p) with rfl | rfl <;>
      simp [spotWork, phaseWork]

theorem spotWork_of_asksFilled (h : spot.asksFilled = true) : 9 ≤ spotWork spot := by
  cases spot with
  | opening => simp [spotWork, callWork]
  | phase p =>
    rcases Spot.of_asksFilled h (Multiset.mem_singleton_self p) with rfl | rfl <;>
      simp [spotWork, phaseWork]

/-- **A passage leaves no more work behind than it finds.** -/
theorem Passage.work_le (h : Passage q spot r q' move) (hring : q.ring.Sound) :
    slotWork * q'.len + workAfter move ≤ slotWork * q.len + spotWork spot := by
  cases h with
  | takeFree hs | waitFree hs =>
    have := spotWork_of_asksFree hs
    simp only [len, slotWork, workAfter, phaseWork]
    omega
  | takeFilled hs | waitFilled hs =>
    have := spotWork_of_asksFilled hs
    simp only [len, slotWork, workAfter, phaseWork]
    omega
  | storePanicked hb hc | storeRejected hb hc | fetchPanicked hb hr hc | fetchRejected hb hr hc =>
    obtain ⟨onE, onD, notes, -, rfl⟩ := exists_of_consult hc
    simp [poison, len, workAfter, spotWork, phaseWork]
  | push hb hc hr =>
    obtain ⟨onE, onD, notes, -, rfl⟩ := exists_of_consult hc
    have := Ring.len_push hr
    simp only [note, len, slotWork, workAfter, spotWork, phaseWork]
    omega
  | popItem hb hc hr | popAbsorbed hb hc hr | popBlind hb hc hr | popConcluded hb hc hr =>
    obtain ⟨onE, onD, notes, -, rfl⟩ := exists_of_consult hc
    have := hring.len_pop hr
    simp only [note, len, slotWork, workAfter, spotWork, phaseWork]
    omega
  | vacate find => cases find <;> simp [len, workAfter, spotWork, phaseWork, afterVacating]
  | @install stage => cases stage <;> simp [setHook, len, workAfter, spotWork, callWork]
  | clear | clearHalfway => simp [note, len, workAfter, spotWork, callWork]
  | _ => simp [note, len, workAfter, spotWork, phaseWork, callWork]

/-- A panic of the logger cuts work short. -/
theorem sectionAt_work_le (h : q.Workable spot) (hring : q.ring.Sound) :
    slotWork * (q.sectionAt spot).1.len + workAfter (q.sectionAt spot).2 ≤
      slotWork * q.len + spotWork spot := by
  obtain ⟨r, q', move, hp, hsec⟩ := exists_passage h
  have hle := hp.work_le hring
  have hpos := workAfter_pos move
  rw [hsec]
  rcases q'.remarked_cases move r with ⟨log, hr⟩ | ⟨log, b, p, -, hr⟩
  · rw [hr]
    exact hle
  · rw [hr]
    show slotWork * q'.len + 1 ≤ _
    omega

end Queue

end BoundedQueue
