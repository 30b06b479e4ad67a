import BoundedQueue.Proofs.Queue.Passage

/-!
# The phases of a call

A call stands at phases of its own only: `Call.Visits` says which these are, and `Passage.visits`
that no section leads a call astray.
-/

set_option autoImplicit false

namespace BoundedQueue

variable {α : Type}

/-- The errand of a call that is putting an entry. -/
def Phase.errand? : Phase α → Option (Errand α)
  | .askFree errand | .awaitFree errand | .store errand | .refundFree errand _
  | .publish errand | .settle errand _ => some errand
  | _ => none

/-- Whether a call has ended without a failure. -/
def Outcome.isWell : Outcome α → Bool
  | done | item _ | drained => true
  | _ => false

/-- Whether a call can stand at a phase.  A consumer never waits for a free permit. -/
def Call.Visits (c : Call α) (p : Phase α) : Prop :=
  match c with
  | .enqueue a | .tryEnqueue a => p.errand? = some (.deliver a)
  | .deregister => p.errand? = some .farewell
  | .dequeue => p.errand? = none ∨ p.errand? = some .relay ∧ (Spot.phase p).asksFree = none
  | .register | .install _ _ | .clear => False

/-- Whether a section of a call can lie at a spot. -/
def Call.Reaches (c : Call α) : Spot α → Prop
  | .opening c' => c' = c
  | .phase p => c.Visits p

section Visits

variable {c : Call α} {p p' : Phase α} {spot : Spot α} {errand : Errand α}

theorem errand?_of_asksFree (h : (Spot.phase p).asksFree = some errand) :
    p.errand? = some errand := by
  cases p <;> first | exact h | cases h

theorem errand?_of_asksFilled (h : (Spot.phase p).asksFilled = true) : p.errand? = none := by
  cases p <;> first | rfl | cases h

/-- Only a call that takes an entry stands at phases without an errand. -/
theorem Call.eq_dequeue (h : c.Visits p) (hp : p.errand? = none) : c = .dequeue := by
  cases c with
  | dequeue => rfl
  | enqueue | tryEnqueue | deregister => rw [Visits, hp] at h; cases h
  | register | install | clear => exact h.elim

theorem Call.Visits.of_errand (h : c.Visits p) (hp : p'.errand? = p.errand?)
    (ha : (Spot.phase p').asksFree = none) : c.Visits p' := by
  cases c with
  | dequeue => exact h.imp hp.trans fun hr => ⟨hp.trans hr.1, ha⟩
  | enqueue | tryEnqueue | deregister => exact hp.trans h
  | register | install | clear => exact h

theorem Call.Reaches.dequeue (h : c.Reaches spot) (hs : spot.asksFilled = true) :
    c = .dequeue := by
  cases spot with
  | opening c' =>
    cases h
    cases c <;> first | rfl | cases hs
  | phase p => exact eq_dequeue h (errand?_of_asksFilled hs)

/-- A call that asks for a free permit does so for the entry that it is to put. -/
theorem Call.Reaches.visits (h : c.Reaches spot) (hs : spot.asksFree = some errand)
    (hp : p.errand? = some errand) : c.Visits p := by
  cases spot with
  | opening c' =>
    cases h
    cases c <;> first | exact hp.trans hs.symm | cases hs
  | phase p' =>
    have he := errand?_of_asksFree hs
    cases c with
    | enqueue | tryEnqueue | deregister => exact hp.trans (he.symm.trans h)
    | dequeue =>
      rcases h with h | ⟨-, h⟩
      · rw [he] at h; cases h
      · rw [hs] at h; cases h
    | register | install | clear => exact h.elim

end Visits

/-- A passage keeps to the phases of its call. -/
theorem Queue.Passage.visits {q q' : Queue α} {spot : Spot α} {r : Option Remark}
    {move : Move (Phase α) Side (Outcome α)} {c : Call α} {p : Phase α}
    (h : q.Passage spot r q' move) (hc : c.Reaches spot) (hp : move.phases = {p}) :
    c.Visits p := by
  have hnext {p' : Phase α} (hm : move.phases = {p'}) : p' = p :=
    Multiset.singleton_inj.1 (hm.symm.trans hp)
  cases h with
  | takeFree hs | waitFree hs => obtain rfl := hnext rfl; exact hc.visits hs rfl
  | takeFilled hs | waitFilled hs => obtain rfl := hnext rfl; cases hc.dequeue hs; exact .inl rfl
  | storeRefused | storeRejected | push | refundFree | publish =>
    obtain rfl := hnext rfl
    exact Call.Visits.of_errand hc rfl rfl
  | fetchRejected | popItem | popAbsorbed | popConcluded | refundFilled =>
    obtain rfl := hnext rfl
    exact Call.Visits.of_errand hc rfl rfl
  | vacate find =>
    obtain rfl := hnext rfl
    cases find <;> exact Call.Visits.of_errand hc rfl rfl
  | passOn =>
    obtain rfl := hnext rfl
    cases Call.eq_dequeue hc rfl
    exact .inr ⟨rfl, rfl⟩
  | lower => obtain rfl := hnext rfl; cases hc; rfl
  | _ => simp [Move.phases] at hp

/-- Of the calls that end well, just those that take an entry end with something to take. -/
theorem Queue.Passage.ends {q q' : Queue α} {spot : Spot α} {r : Option Remark} {o : Outcome α}
    {c : Call α} (h : q.Passage spot r q' (.finish o)) (hc : c.Reaches spot)
    (ho : o.isWell = true) : o = .done ↔ c ≠ .dequeue := by
  cases h with
  | settleRelay =>
    refine ⟨nofun, fun hne => absurd ?_ hne⟩
    cases c with
    | dequeue => rfl
    | enqueue | tryEnqueue | deregister => cases hc
    | register | install | clear => exact hc.elim
  | settleDone errand he =>
    refine ⟨fun _ hd => ?_, fun _ => rfl⟩
    subst hd
    rcases hc with hc | ⟨hc, -⟩
    · cases hc
    · cases hc; exact he rfl
  | handOver | leaveOut => exact ⟨nofun, fun hne => absurd (Call.eq_dequeue hc rfl) hne⟩
  | raise | install | clear => cases hc; exact ⟨nofun, fun _ => rfl⟩
  | _ => cases ho

end BoundedQueue
