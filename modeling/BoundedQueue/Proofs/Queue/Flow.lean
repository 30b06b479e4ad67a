import BoundedQueue.Proofs.Queue.Calls
import BoundedQueue.Proofs.Queue.Markers

/-!
# What goes in and what comes out

Everything that was pushed since the ring was emptied has been popped, in the same order, or is
still in the ring: `Flow`.  This is about the ring and its history only, and every passage keeps it
(`Passage.flow`), also one that fails or panics.

Of the items that a call pushes or pops, `Passage.handling` keeps track.  Between the push of an
item and the end of its call, the item counts as `deposited`; between its pop and the end of the
call, it is `inHand`.  Both can be read off the phase at which the call stands, and what a call was
to put in the first place off the call (`Call.offered`).

* A `Handling` says of one section what it adds to the history, and that the items which it adds are
  just those by which `deposited` and `inHand` grow.
* A call ends well for what it deposited (`Outcome.deposits`), and with what it has in hand
  (`Outcome.items`).  So a call that fails has neither pushed nor popped an item by the time it
  ends.
* `Passage.nothing_of_remark` says that no item is under way where the logger is called, so that a
  panic of the logger costs no item either.
-/

set_option autoImplicit false

namespace BoundedQueue

variable {α : Type}

/-! ## Items in a history -/

namespace Entry

/-- The item in an entry. -/
def item? : Entry α → Option α
  | item a => some a
  | eof => none

end Entry

namespace Note

/-- The entry that was pushed. -/
def pushed? : Note α → Option (Entry α)
  | pushed entry => some entry
  | _ => none

/-- The entry that was popped. -/
def popped? : Note α → Option (Entry α)
  | popped entry => some entry
  | _ => none

/-- The item that was pushed. -/
def pushedItem? (n : Note α) : Option α := n.pushed?.bind Entry.item?

/-- The item that was popped. -/
def poppedItem? (n : Note α) : Option α := n.popped?.bind Entry.item?

end Note

/-! ## Items in the hands of a call -/

/-- The items that a call is to put. -/
def Call.offered : Call α → List α
  | enqueue a | tryEnqueue a => [a]
  | _ => []

namespace Phase

/-- The items that a call has pushed. -/
def deposited : Phase α → List α
  | .publish errand | .settle errand none => errand.entry.item?.toList
  | _ => []

/-- The items that a call has popped. -/
def inHand : Phase α → List α
  | .vacate (.item a) | .handOver a => [a]
  | _ => []

end Phase

namespace Spot

/-- The items that a call has pushed before the section at a spot. -/
def deposited : Spot α → List α
  | opening _ => []
  | phase p => p.deposited

/-- The items that a call has popped before the section at a spot. -/
def inHand : Spot α → List α
  | opening _ => []
  | phase p => p.inHand

end Spot

/-- The items that an outcome hands out. -/
def Outcome.items : Outcome α → List α
  | item a => [a]
  | _ => []

/-- The items that a call has pushed when it ends, out of those that it was to put. -/
def Outcome.deposits (offered : List α) : Outcome α → List α
  | done => offered
  | _ => []

/-- The items that a call has pushed after a section. -/
def Call.depositedAfter (c : Call α) : Move (Phase α) Side (Outcome α) → List α
  | .go p | .wait _ p | .signal _ p => p.deposited
  | .finish o => o.deposits c.offered

/-- The items that a call has popped after a section. -/
def Move.inHand : Move (Phase α) Side (Outcome α) → List α
  | .go p | .wait _ p | .signal _ p => p.inHand
  | .finish o => o.items

namespace Queue

/-- No entry goes in or comes out when a hook is shown one. -/
theorem entries_of_shown {stage : Stage} {entry : Entry α} {v : Verdict} {notes : List (Note α)}
    (h : notes = [] ∧ v = .accept ∨ notes = [.consulted stage entry v]) :
    notes.filterMap Note.pushed? = [] ∧ notes.filterMap Note.popped? = [] := by
  rcases h with ⟨rfl, -⟩ | rfl
  · exact ⟨rfl, rfl⟩
  · exact ⟨rfl, rfl⟩

/-! ## First in, first out -/

/-- What was pushed since the ring was emptied is what was popped since, followed by what is in the
ring; newest first. -/
def Flow (q : Queue α) : Prop :=
  (recent q.history).filterMap Note.pushed? =
    q.ring.contents.reverse ++ (recent q.history).filterMap Note.popped?

variable {q q' : Queue α} {spot : Spot α} {r : Option Remark}
  {move : Move (Phase α) Side (Outcome α)}

/-- A hook that is shown an entry does not change what goes in and comes out. -/
theorem Flow.consult {stage : Stage} {entry : Entry α} {v : Verdict} {q₁ : Queue α} (h : q.Flow)
    (hc : q.consult stage entry = (v, q₁)) : q₁.Flow := by
  obtain ⟨onE, onD, notes, ⟨rfl, -⟩ | rfl, rfl⟩ := exists_of_consult hc
  · exact h
  · exact h

theorem Flow.push {entry : Entry α} {ring : Ring (Entry α)} (h : q.Flow) (hs : q.ring.Sound)
    (hr : q.ring.push? entry = some ring) :
    ({ q with ring := ring }.note (.pushed entry)).Flow := by
  show entry :: (recent q.history).filterMap Note.pushed? = ring.contents.reverse ++ _
  rw [hs.contents_push hr, List.reverse_append, h]
  rfl

theorem Flow.pop {entry : Entry α} {ring : Ring (Entry α)} (h : q.Flow) (hs : q.ring.Sound)
    (hr : q.ring.pop? = some (entry, ring)) :
    ({ q with ring := ring }.note (.popped entry)).Flow := by
  show (recent q.history).filterMap Note.pushed? = ring.contents.reverse ++ entry :: _
  rw [h, hs.contents_pop hr, List.reverse_cons, List.append_assoc]
  rfl

/-- **Every passage is first in, first out.** -/
theorem Passage.flow (h : Passage q spot r q' move) (hs : q.ring.Sound) (hq : q.Flow) :
    q'.Flow := by
  cases h with
  | push hb hc hr =>
    have hflow := hq.consult hc
    obtain ⟨onE, onD, notes, -, rfl⟩ := exists_of_consult hc
    exact hflow.push hs hr
  | popItem hb hc hr | popAbsorbed hb hc hr | popBlind hb hc hr | popConcluded hb hc hr =>
    have hflow := hq.consult hc
    obtain ⟨onE, onD, notes, -, rfl⟩ := exists_of_consult hc
    exact hflow.pop hs hr
  | storePanicked hb hc | storeRejected hb hc | fetchPanicked hb hr hc | fetchRejected hb hr hc =>
    have hflow := hq.consult hc
    exact hflow
  | @install stage => cases stage <;> exact hq
  | clear | clearHalfway => rfl
  | _ => exact hq

/-! ## What a call does with its items -/

theorem offered_of_visits {c : Call α} {p : Phase α} {errand : Errand α} (h : c.Visits p)
    (hp : p.errand? = some errand) : c.offered = errand.entry.item?.toList := by
  cases c with
  | enqueue | tryEnqueue | deregister => cases hp.symm.trans h; rfl
  | dequeue =>
    rcases h with h | ⟨h, -⟩
    · cases hp.symm.trans h
    · cases hp.symm.trans h; rfl
  | register | install | clear => exact h.elim

theorem deposited_of_asksFree {errand : Errand α} (h : spot.asksFree = some errand) :
    spot.deposited = [] ∧ spot.inHand = [] := by
  cases spot with
  | opening => exact ⟨rfl, rfl⟩
  | phase p =>
    rcases Spot.of_asksFree h (Multiset.mem_singleton_self p) with rfl | rfl <;> exact ⟨rfl, rfl⟩

theorem deposited_of_asksFilled (h : spot.asksFilled = true) :
    spot.deposited = [] ∧ spot.inHand = [] := by
  cases spot with
  | opening => exact ⟨rfl, rfl⟩
  | phase p =>
    rcases Spot.of_asksFilled h (Multiset.mem_singleton_self p) with rfl | rfl <;> exact ⟨rfl, rfl⟩

/-- What a passage of a call adds to the history, and what it does with items. -/
structure Handling (q q' : Queue α) (c : Call α) (spot : Spot α)
    (move : Move (Phase α) Side (Outcome α)) (notes : List (Note α)) : Prop where
  history_eq : q'.history = notes ++ q.history
  pushed_eq : notes.filterMap Note.pushedItem? ++ spot.deposited = c.depositedAfter move
  popped_eq : notes.filterMap Note.poppedItem? ++ spot.inHand = move.inHand

/-- **A call accounts for every item that it pushes or pops.** -/
theorem Passage.handling {c : Call α} (h : Passage q spot r q' move) (hc : c.Reaches spot) :
    ∃ notes, Handling q q' c spot move notes := by
  cases h with
  | takeFree hs | waitFree hs =>
    obtain ⟨hd, hi⟩ := deposited_of_asksFree hs
    exact ⟨[], rfl, by rw [hd]; rfl, by rw [hi]; rfl⟩
  | takeFilled hs | waitFilled hs =>
    obtain ⟨hd, hi⟩ := deposited_of_asksFilled hs
    exact ⟨[], rfl, by rw [hd]; rfl, by rw [hi]; rfl⟩
  | storePanicked hb hcon | storeRejected hb hcon | fetchPanicked hb hr hcon
  | fetchRejected hb hr hcon =>
    obtain ⟨onE, onD, notes, ⟨rfl, -⟩ | rfl, rfl⟩ := exists_of_consult hcon
    · exact ⟨[], rfl, rfl, rfl⟩
    · exact ⟨[_], rfl, rfl, rfl⟩
  | @push errand q₁ ring hb hcon hr =>
    obtain ⟨onE, onD, notes, ⟨rfl, -⟩ | rfl, rfl⟩ := exists_of_consult hcon
    · exact ⟨[_], rfl, by cases errand <;> rfl, rfl⟩
    · exact ⟨[_, _], rfl, by cases errand <;> rfl, rfl⟩
  | popItem hb hcon hr | popBlind hb hcon hr =>
    obtain ⟨onE, onD, notes, ⟨rfl, -⟩ | rfl, rfl⟩ := exists_of_consult hcon
    · exact ⟨[_], rfl, rfl, rfl⟩
    · exact ⟨[_, _], rfl, rfl, rfl⟩
  | popAbsorbed hb hcon hr | popConcluded hb hcon hr =>
    obtain ⟨onE, onD, notes, ⟨rfl, -⟩ | rfl, rfl⟩ := exists_of_consult hcon
    · exact ⟨[_, _], rfl, rfl, rfl⟩
    · exact ⟨[_, _, _], rfl, rfl, rfl⟩
  | settleDone errand he => exact ⟨[], rfl, (offered_of_visits hc rfl).symm, rfl⟩
  | settleRelay | settleFarewell | settleFailed => exact ⟨[], rfl, rfl, rfl⟩
  | vacate find => cases find <;> exact ⟨[], rfl, rfl, rfl⟩
  | @install stage => cases hc; cases stage <;> exact ⟨[], rfl, rfl, rfl⟩
  | raise => cases hc; exact ⟨[_], rfl, rfl, rfl⟩
  | clear => cases hc; exact ⟨[.renewed, .emptied], rfl, rfl, rfl⟩
  | lower | leaveOut | clearHalfway => exact ⟨[_], rfl, rfl, rfl⟩
  | _ => exact ⟨[], rfl, rfl, rfl⟩

/-- The ring is emptied only in a clearing, before anything else is done. -/
theorem Passage.emptied_cases (h : Passage q spot r q' move) {notes : List (Note α)}
    (hn : q'.history = notes ++ q.history) (he : .emptied ∈ notes) :
    spot = .opening .clear ∧ (notes = [.emptied] ∨ notes = [.renewed, .emptied]) := by
  have hnotes (notes' : List (Note α)) (hn' : q'.history = notes' ++ q.history) :
      notes' = notes := List.append_cancel_right (hn'.symm.trans hn)
  cases h with
  | clear => exact ⟨rfl, .inr (hnotes [_, _] rfl).symm⟩
  | clearHalfway => exact ⟨rfl, .inl (hnotes [_] rfl).symm⟩
  | storePanicked hb hc | storeRejected hb hc | fetchPanicked hb hr hc | fetchRejected hb hr hc =>
    obtain ⟨onE, onD, shown, hshown, rfl⟩ := exists_of_consult hc
    obtain rfl := hnotes shown rfl
    cases eq_of_shown hshown he
  | push hb hc | popItem hb hc | popBlind hb hc =>
    obtain ⟨onE, onD, shown, hshown, rfl⟩ := exists_of_consult hc
    obtain rfl := hnotes (_ :: shown) rfl
    rcases List.mem_cons.1 he with he | he
    · cases he
    · cases eq_of_shown hshown he
  | popAbsorbed hb hc | popConcluded hb hc =>
    obtain ⟨onE, onD, shown, hshown, rfl⟩ := exists_of_consult hc
    obtain rfl := hnotes (_ :: _ :: shown) rfl
    simp only [List.mem_cons, reduceCtorEq, false_or] at he
    cases eq_of_shown hshown he
  | raise | lower | leaveOut =>
    obtain rfl := hnotes [_] rfl
    simp at he
  | @install stage =>
    obtain rfl := hnotes [] (by cases stage <;> rfl)
    cases he
  | _ =>
    obtain rfl := hnotes [] rfl
    cases he

/-- A call that makes a remark has no item to account for, so it may panic at that. -/
theorem Passage.nothing_of_remark {c : Call α} (h : Passage q spot r q' move) (hr : r ≠ none)
    (hc : c.Reaches spot) : c.depositedAfter move = [] ∧ move.inHand = [] := by
  cases h with
  | storeRefused | storeRejected | settleFarewell | fetchRefused | fetchEmpty | fetchRejected
  | popBlind | passOn | leaveOut | raiseRefused | lowerRefused | lowerUnmatched | lower
  | installRefused | clearRefused | clearHalfway => exact ⟨rfl, rfl⟩
  | raise => cases hc; exact ⟨rfl, rfl⟩
  | _ => exact absurd rfl hr

end Queue

end BoundedQueue
