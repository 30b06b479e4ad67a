import BoundedQueue.Proofs.Queue.Permits

/-!
# The marker for the end of input

The first consumer to pop the last marker passes it on to the next one, and so forth.  On its way
the marker is in the ring, or in the hands of a call.

* `Signalled` says that the end of input is not forgotten: the ring ends in a marker, or a call is
  sure to put one.  A draining consumer gives its slot away before it asks for one to put the marker
  back; while it does not hold a permit, it can only be relied upon if there is a free one.  Where
  somebody else takes that one, this is a producer that left, and has a marker to put.
* `Passage.signalled` says that no passage forgets it, as long as nothing panics, no hook refuses a
  marker and nobody hands in an item.
* `Told` says that it is known from the moment in which the last producer leaves, and `Passage.told`
  that it stays so.
* `markers` counts those that are in the ring and those that calls owe.
-/

set_option autoImplicit false

namespace BoundedQueue

variable {α : Type}

/-! ## What happened lately -/

/-- Whether a note is that the ring was emptied. -/
def Note.isEmptied : Note α → Bool
  | .emptied => true
  | _ => false

/-- Whether a note is that a producer was deregistered. -/
def Note.isLowered : Note α → Bool
  | .lowered => true
  | _ => false

/-- What happened since a clearing emptied the ring, or from the beginning, newest first. -/
def recent (history : List (Note α)) : List (Note α) := history.takeWhile fun n => !n.isEmptied

/-! ## Where markers are -/

/-- Whether an entry is the marker for the end of input. -/
def Entry.isMarker : Entry α → Bool
  | item _ => false
  | eof => true

theorem Entry.eq_eof {entry : Entry α} (h : entry.isMarker = true) : entry = .eof := by
  cases entry with
  | item => cases h
  | eof => rfl

namespace Phase

/-- Whether a call at a phase hands in an item for its caller. -/
def delivers (p : Phase α) : Bool :=
  match p with
  | .askFree errand | .awaitFree errand | .store errand | .refundFree errand _
  | .publish errand | .settle errand _ => !errand.entry.isMarker
  | _ => false

/-- Whether a call at a phase is sure to put a marker, or to give a slot away for one. -/
def bringsMarker : Phase α → Bool
  | .askFree errand | .awaitFree errand | .store errand => errand.entry.isMarker
  | .vacate .concluded => true
  | _ => false

/-- Whether a call at a phase may still put a marker. -/
def owesMarker : Phase α → Bool
  | .askFree errand | .awaitFree errand | .store errand => errand.entry.isMarker
  | .vacate .concluded | .passOn => true
  | _ => false

end Phase

/-- How many of the calls at the given phases may still put a marker. -/
def owed (phases : Multiset (Phase α)) : Nat := phases.countP fun p => p.owesMarker = true

section Owed

variable {spot : Spot α}

@[simp] theorem owed_zero : owed (0 : Multiset (Phase α)) = 0 := rfl

@[simp] theorem owed_add (phases others : Multiset (Phase α)) :
    owed (phases + others) = owed phases + owed others :=
  Multiset.countP_add _ _ _

@[simp] theorem owed_singleton (p : Phase α) : owed {p} = if p.owesMarker = true then 1 else 0 := by
  rw [owed, ← Multiset.cons_zero, Multiset.countP_cons, Multiset.countP_zero, zero_add]

end Owed

namespace Queue

/-- How often a producer was deregistered since the ring was emptied. -/
def departures (q : Queue α) : Nat := (recent q.history).countP Note.isLowered

/-- The end of input is not forgotten. -/
def Signalled (q : Queue α) (phases : Multiset (Phase α)) : Prop :=
  (∃ p ∈ phases, p.bringsMarker = true) ∨ q.ring.contents.getLast? = some .eof ∨
    .passOn ∈ phases ∧ 0 < q.free.permits

/-- The markers in the ring, and those that calls may still put. -/
def markers (q : Queue α) (phases : Multiset (Phase α)) : Nat :=
  q.ring.contents.countP Entry.isMarker + owed phases

variable {q q' : Queue α} {spot : Spot α} {r : Option Remark}
  {move : Move (Phase α) Side (Outcome α)} {others : Multiset (Phase α)}

/-- Producers come and go, and the ring is emptied, only in the calls that are for it. -/
theorem Passage.producers_eq (h : Passage q spot r q' move) (hr : spot ≠ .opening .register)
    (hd : spot ≠ .opening .deregister) (hc : spot ≠ .opening .clear) :
    q'.producers = q.producers ∧ q'.departures = q.departures := by
  cases h with
  | raise | raiseRefused => exact absurd rfl hr
  | lower | lowerRefused | lowerUnmatched => exact absurd rfl hd
  | clear | clearHalfway | clearRefused => exact absurd rfl hc
  | push hb hcon | storePanicked hb hcon | storeRejected hb hcon | popItem hb hcon
  | popAbsorbed hb hcon | popBlind hb hcon | popConcluded hb hcon =>
    obtain ⟨onE, onD, notes, ⟨rfl, -⟩ | rfl, rfl⟩ := exists_of_consult hcon
    · exact ⟨rfl, rfl⟩
    · exact ⟨rfl, rfl⟩
  | fetchPanicked hb hr hcon | fetchRejected hb hr hcon =>
    obtain ⟨onE, onD, notes, ⟨rfl, -⟩ | rfl, rfl⟩ := exists_of_consult hcon
    · exact ⟨rfl, rfl⟩
    · exact ⟨rfl, rfl⟩
  | @install stage => cases stage <;> exact ⟨rfl, rfl⟩
  | _ => exact ⟨rfl, rfl⟩

theorem departures_lower (q : Queue α) (n : Nat) :
    ({ q with producers := n }.note .lowered).departures = q.departures + 1 :=
  List.countP_cons_of_pos rfl

/-! ## The signal -/

/-- The signal stays if the call that moves did not carry it, no permit is taken away, and the ring
still ends in a marker if it did. -/
theorem Signalled.keep {phases phases' : Multiset (Phase α)} (h : q.Signalled (phases + others))
    (hphases : ∀ p ∈ phases, p.bringsMarker = false) (hfree : q.free.permits ≤ q'.free.permits)
    (hpass : .passOn ∈ phases → q.free.permits = 0)
    (hlast : q.ring.contents.getLast? = some .eof → q'.ring.contents.getLast? = some .eof) :
    q'.Signalled (phases' + others) := by
  rcases h with ⟨p, hp, hb⟩ | h | ⟨hp, hpos⟩
  · rcases Multiset.mem_add.1 hp with hp | hp
    · rw [hphases p hp] at hb; cases hb
    · exact .inl ⟨p, Multiset.mem_add.2 (.inr hp), hb⟩
  · exact .inr (.inl (hlast h))
  · rcases Multiset.mem_add.1 hp with hp | hp
    · rw [hpass hp] at hpos; exact absurd hpos (Nat.lt_irrefl 0)
    · exact .inr (.inr ⟨Multiset.mem_add.2 (.inr hp), Nat.lt_of_lt_of_le hpos hfree⟩)

/-- The signal stays if the call that moves had nothing to do with it. -/
theorem Signalled.keep_of_phase {p : Phase α} {phases' : Multiset (Phase α)}
    (h : q.Signalled ({p} + others)) (hbrings : p.bringsMarker = false) (hpass : p ≠ .passOn)
    (hfree : q.free.permits ≤ q'.free.permits)
    (hlast : q.ring.contents.getLast? = some .eof → q'.ring.contents.getLast? = some .eof) :
    q'.Signalled (phases' + others) := by
  refine h.keep (fun p' hp => ?_) hfree (fun hp => ?_) hlast
  · rw [Multiset.mem_singleton.1 hp]; exact hbrings
  · exact absurd (Multiset.mem_singleton.1 hp).symm hpass

theorem Signalled.of_brings {p : Phase α} (hp : move.phases = {p}) (h : p.bringsMarker = true) :
    q'.Signalled (move.phases + others) :=
  .inl ⟨p, Multiset.mem_add.2 (.inl (hp ▸ Multiset.mem_singleton_self p)), h⟩

theorem Signalled.add {phases : Multiset (Phase α)} (h : q.Signalled others) :
    q.Signalled (phases + others) := by
  rcases h with ⟨p, hp, hb⟩ | h | ⟨hp, hpos⟩
  · exact .inl ⟨p, Multiset.mem_add.2 (.inr hp), hb⟩
  · exact .inr (.inl h)
  · exact .inr (.inr ⟨Multiset.mem_add.2 (.inr hp), hpos⟩)

/-- A popped slot that was not the last one is not the end of the ring. -/
theorem getLast?_of_pop {entry : Entry α} {ring : Ring (Entry α)} (hring : q.ring.Sound)
    (hr : q.ring.pop? = some (entry, ring)) (hl : ring.contents ≠ [] ∨ entry ≠ .eof)
    (hlast : q.ring.contents.getLast? = some .eof) : ring.contents.getLast? = some .eof := by
  rw [hring.contents_pop hr] at hlast
  by_cases hnil : ring.contents = []
  · rw [hnil, List.getLast?_singleton, Option.some_inj] at hlast
    exact absurd hlast (hl.resolve_left fun h => h hnil)
  · rwa [List.getLast?_cons_of_ne_nil hnil] at hlast

/-- **The signal stays while no producer is left**, unless a hook stops a marker or an item is
handed in all the same. -/
theorem Passage.signalled (h : Passage q spot r q' move) (hring : q.ring.Sound)
    (hbuffer : q.bufferPoisoned = false) (hproducers : q.producersPoisoned = false)
    (hmove : ∀ text, move ≠ .finish (.panicked text))
    (heof : ∀ cause, .consulted .enqueue .eof (.reject cause) ∉ q'.history)
    (hescort : ∀ p, move.phases = {p} → p.delivers = false) (h0 : q.producers = 0)
    (hr : spot ≠ .opening .register) (hd : spot ≠ .opening .deregister)
    (hc : spot ≠ .opening .clear) (hsig : q.Signalled (spot.phases + others)) :
    q'.Signalled (move.phases + others) := by
  have hmarker {p : Phase α} {errand : Errand α} (hp : move.phases = {p})
      (hdel : p.delivers = !errand.entry.isMarker) : errand.entry.isMarker = true := by
    have := hescort p hp
    rw [hdel] at this
    simpa using this
  have hnone {p : Phase α} {P : Prop} (hp : p ∈ (0 : Multiset (Phase α))) : P :=
    absurd hp (Multiset.notMem_zero p)
  cases h with
  | takeFree hs hp => exact .of_brings rfl (hmarker rfl rfl)
  | waitFree hs ha hp => exact .of_brings rfl (hmarker rfl rfl)
  | storePanicked | fetchPanicked => exact absurd rfl (hmove _)
  | storeRefused errand hb | fetchRefused hb => rw [hb] at hbuffer; cases hbuffer
  | @storeRejected errand q₁ cause hb hcon =>
    have heq := Entry.eq_eof (@hmarker _ errand rfl rfl)
    obtain ⟨onE, onD, notes, ⟨-, hv⟩ | rfl, rfl⟩ := exists_of_consult hcon
    · cases hv
    · exact absurd (heq ▸ List.mem_cons_self) (heof cause)
  | @push errand q₁ ring hb hcon hpush =>
    have heq := Entry.eq_eof (@hmarker _ errand rfl rfl)
    refine .inr (.inl ?_)
    show ring.contents.getLast? = some .eof
    rw [hring.contents_push hpush, heq, List.getLast?_append, List.getLast?_singleton]
    rfl
  | fetchRejected hb hpeek hcon =>
    obtain ⟨onE, onD, notes, -, rfl⟩ := exists_of_consult hcon
    exact hsig.keep_of_phase rfl (fun hp => by cases hp) (Nat.le_refl _) id
  | popItem hb hcon hpop =>
    obtain ⟨onE, onD, notes, -, rfl⟩ := exists_of_consult hcon
    exact hsig.keep_of_phase rfl (fun hp => by cases hp) (Nat.le_refl _)
      (getLast?_of_pop hring hpop (.inr fun hitem => by cases hitem))
  | popAbsorbed hb hcon hpop hl =>
    obtain ⟨onE, onD, notes, -, rfl⟩ := exists_of_consult hcon
    have hl := hl.resolve_right fun hp => hp.2 h0
    rw [(hring.pop hpop).isEmpty_eq, List.isEmpty_eq_false_iff] at hl
    exact hsig.keep_of_phase rfl (fun hp => by cases hp) (Nat.le_refl _)
      (getLast?_of_pop hring hpop (.inl hl))
  | popBlind hb hcon hpop hl hp => rw [hp] at hproducers; cases hproducers
  | popConcluded => exact .of_brings rfl rfl
  | vacate find =>
    cases find with
    | concluded =>
      exact .inr (.inr ⟨Multiset.mem_add.2 (.inl (Multiset.mem_singleton_self _)), Nat.succ_pos _⟩)
    | item | absorbed =>
      exact hsig.keep_of_phase rfl (fun hp => by cases hp) (Nat.le_succ _) id
  | passOn => exact .of_brings rfl rfl
  | leaveOut hp =>
    exact hsig.keep (by simp [Spot.phases, Phase.bringsMarker]) (Nat.le_refl _) (fun _ => hp) id
  | takeFilled hs | waitFilled hs =>
    refine hsig.keep (fun p hp => ?_) (Nat.le_refl _) (fun hp => ?_) id
    · rcases Spot.of_asksFilled hs hp with rfl | rfl <;> rfl
    · rcases Spot.of_asksFilled hs hp with h | h <;> cases h
  | raise | raiseRefused => exact absurd rfl hr
  | lower | lowerRefused | lowerUnmatched => exact absurd rfl hd
  | clear | clearHalfway | clearRefused => exact absurd rfl hc
  | full | installRefused => exact hsig.keep (fun p => hnone) (Nat.le_refl _) hnone id
  | @install stage => cases stage <;> exact hsig.keep (fun p => hnone) (Nat.le_refl _) hnone id
  | refundFree => exact hsig.keep_of_phase rfl (fun hp => by cases hp) (Nat.le_succ _) id
  | _ => exact hsig.keep_of_phase rfl (fun hp => by cases hp) (Nat.le_refl _) id

/-- The end of input is not forgotten once the last producer has left. -/
def Told (q : Queue α) (phases : Multiset (Phase α)) : Prop :=
  q.producers = 0 → 0 < q.departures → q.Signalled phases

theorem Passage.told (h : Passage q spot r q' move) (hring : q.ring.Sound)
    (hexact : q.Exact (spot.phases + others)) (hmove : ∀ text, move ≠ .finish (.panicked text))
    (heof : ∀ cause, .consulted .enqueue .eof (.reject cause) ∉ q'.history)
    (hescort : ∀ p, move.phases = {p} → p.delivers = true → q'.producers ≠ 0)
    (htold : q.Told (spot.phases + others)) : q'.Told (move.phases + others) := by
  intro h0 hdep
  by_cases hr : spot = .opening .register
  · subst hr
    rcases h.register_cases with ⟨hp, -⟩ | ⟨rfl, -⟩
    · rw [hexact.producersSound] at hp; cases hp
    · cases h0
  by_cases hd : spot = .opening .deregister
  · subst hd
    rcases h.deregister_cases with ⟨-, rfl, e, rfl⟩ | ⟨n, -, rfl, rfl⟩
    · exact htold h0 hdep
    · exact .of_brings rfl rfl
  by_cases hc : spot = .opening .clear
  · subst hc
    cases h with
    | clear => cases hdep
    | clearRefused hb => rw [hexact.bufferSound] at hb; cases hb
    | clearHalfway hb hp => rw [hexact.producersSound] at hp; cases hp
    | takeFree hs | waitFree hs | takeFilled hs | waitFilled hs => cases hs
  obtain ⟨hprod, hdeps⟩ := h.producers_eq hr hd hc
  rw [hprod] at h0 hescort
  rw [hdeps] at hdep
  refine h.signalled hring hexact.bufferSound hexact.producersSound hmove heof (fun p hp => ?_) h0
    hr hd hc (htold h0 hdep)
  by_contra hdel
  exact hescort p hp (by simpa using hdel) h0

end Queue

end BoundedQueue
