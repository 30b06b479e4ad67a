import BoundedQueue.Proofs.Sequential.Mirror

/-!
# A call as a whole

Every call on a queue comes to the same as the call on a reference that it mirrors, and leaves it a
mirror again: `Queue.Mirrors.call`.  A reference makes a call in one go, while the queue goes from
section to section, so that the comparison has to begin in the middle of calls as well.

## What is here

There is a lemma for each stretch of a call, from where it holds nothing, or just a permit, to its
end.  Later stretches come first, since an earlier one is a section, or two, and then a later one.

* `Phase.outcome?` and `Phase.afterReturn?` read off a phase that nothing is left to do but to
  answer, or to return a permit first.  `Mirrors.ends` and `Mirrors.returns` say that this leaves
  everything else as it is.
* `Mirrors.store` is about a call that has a free permit in hand, `Mirrors.put` about one that asks
  for it.  The three kinds of calls that put an entry differ in the answer only, which is
  `Errand.stop`; an attempt also differs where there is no room (`Mirrors.tryEnqueue_full`).
* `Mirrors.fetch` is about a call that has a filled permit in hand.  It leaves open how the call
  goes on after a marker, so that `Mirrors.take` can be proved by induction on the entries: a marker
  that is absorbed is one entry less, and leads back to where the call asked for an item.
* `Mirrors.passOn` is about the last marker.  Putting it back is a put of its own, and there is
  always room for it, because nobody else can have taken the slot that the call has emptied.

The calls that make no use of permits are single sections: `Mirrors.register`, `Mirrors.install` and
`Mirrors.clear`.
-/

set_option autoImplicit false

namespace BoundedQueue

variable {α : Type}

/-! ## How a call ends -/

/-- How a call ends that has put its entry, or failed to. -/
def Errand.outcome : Errand α → Except Error Unit → Outcome α
  | relay, .ok () => .drained
  | _, .ok () => .done
  | _, .error e => .failed e

theorem Errand.outcome_ok (errand : Errand α) (he : errand ≠ .relay) :
    errand.outcome (.ok ()) = .done := by
  cases errand with
  | relay => exact absurd rfl he
  | deliver | farewell => rfl

theorem Errand.outcome_error (errand : Errand α) (e : Error) :
    errand.outcome (.error e) = .failed e := by
  cases errand <;> rfl

/-- How a call ends that has nothing left to do. -/
def Phase.outcome? : Phase α → Option (Outcome α)
  | .settle errand none => some (errand.outcome (.ok ()))
  | .settle errand (some e) => some (errand.outcome (.error e))
  | .handOver a => some (.item a)
  | .fail e => some (.failed e)
  | _ => none

/-- The semaphore to which a call returns a permit next, and where it goes on. -/
def Phase.afterReturn? : Phase α → Option (Side × Phase α)
  | .refundFree errand e => some (.free, .settle errand (some e))
  | .publish errand => some (.filled, .settle errand none)
  | .refundFilled e => some (.filled, .fail e)
  | .vacate find => some (.free, Queue.afterVacating find)
  | _ => none

/-- Where a call stops that puts an entry, by what comes of it. -/
def Errand.stop (errand : Errand α) : Option (Except Error Unit) → Stop α
  | none => .waits .free (.awaitFree errand)
  | some result => .through (errand.outcome result)

theorem Errand.answer?_put (errand : Errand α) (he : errand ≠ .relay)
    (result? : Option (Except Error Unit)) :
    (errand.stop result?).answer? Session.plainAnswer = result?.map Reference.putAnswer := by
  rcases result? with - | ⟨e⟩ | ⟨⟩
  · rfl
  · rw [stop, outcome_error]
    rfl
  · rw [stop, outcome_ok errand he]
    rfl

theorem Errand.answer?_attempt (a : α) (result? : Option (Except Error Unit)) :
    ((Errand.deliver a).stop result?).answer? Session.attemptAnswer =
      result?.map Reference.attemptAnswer := by
  rcases result? with - | ⟨e⟩ | ⟨⟩ <;> rfl

theorem Errand.answer?_relay (result? : Option (Except Error Unit)) :
    ((Errand.relay : Errand α).stop result?).answer? Session.plainAnswer =
      result?.map Reference.relayAnswer := by
  rcases result? with - | ⟨e⟩ | ⟨⟩ <;> rfl

namespace Queue

variable {before : List (Note α)} {q : Queue α} {s : Reference α} {spot : Spot α}
  {errand : Errand α} {p next : Phase α} {side : Side} {o : Outcome α}

/-- A call that has only to end leaves everything as it is. -/
theorem Mirrors.ends (h : Mirrors before q (Spot.phase p).phases s) (hp : p.outcome? = some o) :
    Yields before q (.phase p) (.through o) s := by
  obtain ⟨r, q₁, move, hpassage, hmoves⟩ := h.step
  cases hpassage with
  | settleRelay | settleFarewell | handOver | fail =>
    cases hp
    exact (hmoves h.hooks h.contents_eq h.producers_eq nofun).through
  | settleDone errand he =>
    obtain rfl : errand.outcome (.ok ()) = o := Option.some_inj.1 hp
    rw [errand.outcome_ok he]
    exact (hmoves h.hooks h.contents_eq h.producers_eq nofun).through
  | settleFailed errand e he =>
    obtain rfl : errand.outcome (.error e) = o := Option.some_inj.1 hp
    rw [errand.outcome_error]
    exact (hmoves h.hooks h.contents_eq h.producers_eq nofun).through
  | takeFree hs | waitFree hs =>
    rcases Spot.of_asksFree hs (Multiset.mem_singleton_self p) with rfl | rfl <;> cases hp
  | takeFilled hs | waitFilled hs =>
    rcases Spot.of_asksFilled hs (Multiset.mem_singleton_self p) with rfl | rfl <;> cases hp
  | _ => cases hp

/-- A call that returns a permit leaves everything else as it is. -/
theorem Mirrors.returns (h : Mirrors before q (Spot.phase p).phases s)
    (hp : p.afterReturn? = some (side, next)) :
    Moves before q (.phase p) (.signal side next) s := by
  obtain ⟨r, q₁, move, hpassage, hmoves⟩ := h.step
  cases hpassage with
  | publish | refundFree | refundFilled | vacate =>
    cases hp
    exact hmoves (h.hooks.change [] rfl rfl rfl rfl) h.contents_eq h.producers_eq nofun
  | takeFree hs | waitFree hs =>
    rcases Spot.of_asksFree hs (Multiset.mem_singleton_self p) with rfl | rfl <;> cases hp
  | takeFilled hs | waitFilled hs =>
    rcases Spot.of_asksFilled hs (Multiset.mem_singleton_self p) with rfl | rfl <;> cases hp
  | _ => cases hp

/-! ## Putting an entry -/

/-- A free permit in hand stands for a free slot. -/
theorem Mirrors.room (h : Mirrors before q (Spot.phase (.store errand)).phases s) :
    s.slots.length ≠ q.capacity := by
  have hfree := h.exact.freeSide_eq
  simp only [freeSide, Spot.phases, carried_singleton, Phase.burden, if_true] at hfree
  rw [← h.len_eq]
  omega

/-- With a free permit in hand, an entry goes in unless it is rejected. -/
theorem Mirrors.store (h : Mirrors before q (Spot.phase (.store errand)).phases s) :
    Yields before q (.phase (.store errand)) (errand.stop (s.put q.capacity errand.entry).2)
      (s.put q.capacity errand.entry).1 := by
  obtain ⟨r, q₁, move, hp, hmoves⟩ := h.step
  cases hp with
  | storeRefused errand hb => cases h.exact.bufferSound.symm.trans hb
  | storePanicked hb hc =>
    obtain ⟨-, ⟨hv, -⟩ | ⟨cause, hv, -⟩⟩ := h.hooks.consult hc <;> cases hv
  | storeRejected hb hc =>
    obtain ⟨hhooks, ⟨hv, -⟩ | ⟨cause, hv, hreject⟩⟩ := h.hooks.consult hc
    · cases hv
    · cases hv
      obtain ⟨onE, onD, notes, -, rfl⟩ := exists_of_consult hc
      rw [Reference.put_of_reject h.room hreject]
      have hmove := hmoves hhooks (h.contents_eq.trans Reference.slots_consult.symm)
        (h.producers_eq.trans Reference.producers_consult.symm) nofun
      exact hmove.go fun q₂ h₂ _ => (h₂.returns rfl).signal fun q₃ h₃ _ => h₃.ends rfl
  | push hb hc hr =>
    obtain ⟨hhooks, ⟨-, haccept⟩ | ⟨cause, hv, -⟩⟩ := h.hooks.consult hc
    · obtain ⟨onE, onD, notes, -, rfl⟩ := exists_of_consult hc
      have hcontents := h.within.ringSound.contents_push hr
      rw [h.contents_eq] at hcontents
      rw [Reference.put_of_accept h.room haccept]
      have hpushed := hhooks.entries (s.slots ++ [errand.entry])
      have hmove := hmoves (hpushed.change [.pushed errand.entry] rfl rfl rfl rfl) hcontents
        (h.producers_eq.trans Reference.producers_consult.symm) nofun
      exact hmove.go fun q₂ h₂ _ => (h₂.returns rfl).signal fun q₃ h₃ _ => h₃.ends rfl
    · cases hv
  | takeFree hs | waitFree hs | takeFilled hs | waitFilled hs => cases hs

/-- With a free slot, a call that asks for one puts its entry, attempt or not. -/
theorem Mirrors.put_of_room (h : Mirrors before q spot.phases s) (hs : spot.asksFree = some errand)
    (hroom : s.slots.length ≠ q.capacity) :
    Yields before q spot (errand.stop (s.put q.capacity errand.entry).2)
      (s.put q.capacity errand.entry).1 := by
  have hpermits := (h.permits (burden_of_asksFree hs)).1
  obtain ⟨r, q₁, move, hp, hmoves⟩ := h.step
  obtain ⟨-, rfl, rfl⟩ | ⟨h0, -⟩ := hp.of_asksFree hs
  · have hmove := hmoves (h.hooks.change [] rfl rfl rfl rfl) h.contents_eq h.producers_eq nofun
    exact hmove.go fun q₂ h₂ hcap => hcap ▸ h₂.store
  · omega

/-- A call puts its entry, or waits while there is no room. -/
theorem Mirrors.put (h : Mirrors before q spot.phases s) (hs : spot.asksFree = some errand)
    (ha : spot.isAttempt = false) :
    Yields before q spot (errand.stop (s.put q.capacity errand.entry).2)
      (s.put q.capacity errand.entry).1 := by
  by_cases hfull : s.slots.length = q.capacity
  · have hpermits := (h.permits (burden_of_asksFree hs)).1
    rw [Reference.put_of_full hfull]
    obtain ⟨r, q₁, move, hp, hmoves⟩ := h.step
    obtain ⟨hpos, -⟩ | ⟨-, rfl, ⟨-, rfl⟩ | ⟨a, rfl, -⟩⟩ := hp.of_asksFree hs
    · omega
    · exact (hmoves h.hooks h.contents_eq h.producers_eq nofun).waits
    · cases ha
  · exact h.put_of_room hs hfull

/-- An attempt is over when there is no room. -/
theorem Mirrors.tryEnqueue_full {a : α}
    (h : Mirrors before q (Spot.opening (.tryEnqueue a)).phases s)
    (hfull : s.slots.length = q.capacity) :
    Yields before q (.opening (.tryEnqueue a)) (.through (.full a)) s := by
  have hpermits := (h.permits rfl).1
  obtain ⟨r, q₁, move, hp, hmoves⟩ := h.step
  obtain ⟨hpos, -⟩ | ⟨-, rfl, ⟨ha, -⟩ | ⟨b, hb, rfl⟩⟩ := hp.of_asksFree rfl
  · omega
  · cases ha
  · cases hb
    exact (hmoves h.hooks h.contents_eq h.producers_eq nofun).through

/-! ## Taking an entry -/

/-- In an empty ring there is room for the marker that ended the input. -/
theorem Mirrors.passOn (h : Mirrors before q (Spot.phase .passOn).phases s)
    (hroom : s.slots.length ≠ q.capacity) :
    Yields before q (.phase .passOn) (Errand.relay.stop (s.put q.capacity .eof).2)
      (s.put q.capacity .eof).1 := by
  have hpermits := (h.permits rfl).1
  obtain ⟨r, q₁, move, hp, hmoves⟩ := h.step
  cases hp with
  | passOn =>
    have hmove := hmoves (h.hooks.change [] rfl rfl rfl rfl) h.contents_eq h.producers_eq nofun
    exact hmove.go fun q₂ h₂ hcap => hcap ▸ h₂.store
  | leaveOut h0 => omega
  | takeFree hs | waitFree hs | takeFilled hs | waitFilled hs => cases hs

/-- What a call does with a filled permit in hand, if it also knows how to go on after a marker. -/
theorem Mirrors.fetch {entry : Entry α} {rest : List (Entry α)}
    (h : Mirrors before q (Spot.phase .fetch).phases s) (hslots : s.slots = entry :: rest)
    (hagain : ∀ q₁ s₁, Mirrors before q₁ (Spot.phase .askFilled).phases s₁ → s₁.slots = rest →
      q₁.capacity = q.capacity →
        AnswersAs before q₁ (.phase .askFilled) Session.plainAnswer (s₁.take q.capacity rest)) :
    AnswersAs before q (.phase .fetch) Session.plainAnswer (s.take q.capacity (entry :: rest)) := by
  have hsound := h.within.ringSound
  have hcontents := h.contents_eq.trans hslots
  -- what is popped is the first entry
  have hpop {first : Entry α} {ring : Ring (Entry α)} (hr : q.ring.pop? = some (first, ring)) :
      first = entry ∧ ring.contents = rest :=
    List.cons_eq_cons.1 ((hsound.contents_pop hr).symm.trans hcontents)
  have hpeek : q.ring.peek? = some entry := by
    rw [hsound.peek?_eq_head?, hcontents]
    rfl
  have hpos : 0 < q.capacity := h.within.capacity_eq ▸ Nat.zero_lt_of_lt hsound.head_lt
  obtain ⟨r, q₁, move, hp, hmoves⟩ := h.step
  cases hp with
  | fetchRefused hb => cases h.exact.bufferSound.symm.trans hb
  | fetchEmpty hb hr => cases hpeek.symm.trans hr
  | fetchPanicked hb hr hc =>
    obtain ⟨-, ⟨hv, -⟩ | ⟨cause, hv, -⟩⟩ := h.hooks.consult hc <;> cases hv
  | fetchRejected hb hr hc =>
    obtain rfl := Option.some_inj.1 (hpeek.symm.trans hr)
    obtain ⟨hhooks, ⟨hv, -⟩ | ⟨cause, hv, hreject⟩⟩ := h.hooks.consult hc
    · cases hv
    · cases hv
      obtain ⟨onE, onD, notes, -, rfl⟩ := exists_of_consult hc
      have hmove := hmoves hhooks (h.contents_eq.trans Reference.slots_consult.symm)
        (h.producers_eq.trans Reference.producers_consult.symm) nofun
      exact hmove.go fun q₂ h₂ _ => (h₂.returns rfl).signal fun q₃ h₃ _ =>
        (h₃.ends rfl).answers (Reference.take_of_reject hreject rest)
  | popItem hb hc hr =>
    obtain ⟨rfl, hring⟩ := hpop hr
    obtain ⟨hhooks, ⟨-, haccept⟩ | ⟨cause, hv, -⟩⟩ := h.hooks.consult hc
    · obtain ⟨onE, onD, notes, -, rfl⟩ := exists_of_consult hc
      have hmove := hmoves ((hhooks.entries rest).change [.popped _] rfl rfl rfl rfl) hring
        (h.producers_eq.trans Reference.producers_consult.symm) nofun
      exact hmove.go fun q₂ h₂ _ => (h₂.returns rfl).signal fun q₃ h₃ _ =>
        (h₃.ends rfl).answers (Reference.take_of_item haccept rest)
    · cases hv
  | popAbsorbed hb hc hr hl =>
    obtain ⟨rfl, hring⟩ := hpop hr
    obtain ⟨hhooks, ⟨-, haccept⟩ | ⟨cause, hv, -⟩⟩ := h.hooks.consult hc
    · have hleft : rest ≠ [] ∨ s.producers ≠ 0 := by
        rw [(hsound.pop hr).isEmpty_eq, hring, h.producers_eq] at hl
        simpa using hl.imp_right And.right
      obtain ⟨onE, onD, notes, -, rfl⟩ := exists_of_consult hc
      have hmove := hmoves ((hhooks.entries rest).change [.absorbed, .popped _] rfl rfl rfl rfl)
        hring (h.producers_eq.trans Reference.producers_consult.symm) nofun
      rw [Reference.take_of_absorbed haccept hleft]
      exact hmove.go fun q₂ h₂ hcap₂ => (h₂.returns rfl).signal fun q₃ h₃ hcap₃ =>
        hagain q₃ _ h₃ rfl (hcap₃.trans hcap₂)
    · cases hv
  | popBlind hb hc hr hl hp => cases h.exact.producersSound.symm.trans hp
  | popConcluded hb hc hr hl hp h0 =>
    obtain ⟨rfl, hring⟩ := hpop hr
    obtain ⟨hhooks, ⟨-, haccept⟩ | ⟨cause, hv, -⟩⟩ := h.hooks.consult hc
    · obtain rfl : rest = [] := by
        rw [(hsound.pop hr).isEmpty_eq, hring] at hl
        simpa using hl
      obtain ⟨onE, onD, notes, -, rfl⟩ := exists_of_consult hc
      have hmove := hmoves ((hhooks.entries []).change [.concluded, .popped _] rfl rfl rfl rfl)
        hring (h.producers_eq.trans Reference.producers_consult.symm) nofun
      rw [Reference.take_of_concluded haccept (h.producers_eq.symm.trans h0)]
      refine hmove.go fun q₂ h₂ hcap₂ => (h₂.returns rfl).signal fun q₃ h₃ hcap₃ => ?_
      have hcap := hcap₃.trans hcap₂
      exact hcap ▸ (h₃.passOn (hcap ▸ hpos.ne)).answers (by rw [Errand.answer?_relay])
    · cases hv
  | takeFree hs | waitFree hs | takeFilled hs | waitFilled hs => cases hs

/-- **A call takes an item just as it is taken from a list**: by induction on the entries, of which
every marker that is absorbed is one. -/
theorem Mirrors.take (slots : List (Entry α)) : ∀ {q : Queue α} {spot : Spot α} {s : Reference α},
    Mirrors before q spot.phases s → spot.asksFilled = true → s.slots = slots →
      AnswersAs before q spot Session.plainAnswer (s.take q.capacity slots) := by
  induction slots with
  | nil =>
    intro q spot s h hs hslots
    have hpermits := (h.permits (burden_of_asksFilled hs)).2
    rw [hslots] at hpermits
    obtain ⟨r, q₁, move, hp, hmoves⟩ := h.step
    obtain ⟨hpos, -⟩ | ⟨-, rfl, rfl⟩ := hp.of_asksFilled hs
    · exact absurd hpermits hpos.ne'
    · exact (hmoves h.hooks h.contents_eq h.producers_eq nofun).waits.answers rfl
  | cons entry rest ih =>
    intro q spot s h hs hslots
    have hpermits := (h.permits (burden_of_asksFilled hs)).2
    rw [hslots, List.length_cons] at hpermits
    obtain ⟨r, q₁, move, hp, hmoves⟩ := h.step
    obtain ⟨-, rfl, rfl⟩ | ⟨h0, -⟩ := hp.of_asksFilled hs
    · have hmove := hmoves (h.hooks.change [] rfl rfl rfl rfl) h.contents_eq h.producers_eq nofun
      refine hmove.go fun q₂ h₂ hcap₂ => hcap₂ ▸ h₂.fetch hslots fun q₃ s₃ h₃ hs₃ hcap₃ => ?_
      exact hcap₃ ▸ ih h₃ rfl hs₃
    · omega

/-! ## Every call -/

theorem Mirrors.register (h : Mirrors before q (Spot.opening .register).phases s) :
    Yields before q (.opening .register) (.through .done)
      { s with producers := s.producers + 1 } := by
  obtain ⟨r, q₁, move, hp, hmoves⟩ := h.step
  cases hp with
  | raiseRefused hp => cases h.exact.producersSound.symm.trans hp
  | raise =>
    have hhooks := h.hooks.recount (s.producers + 1)
    exact (hmoves (hhooks.change [.raised] rfl rfl rfl rfl) h.contents_eq
      (congrArg (· + 1) h.producers_eq) nofun).through
  | takeFree hs | waitFree hs | takeFilled hs | waitFilled hs => cases hs

theorem Mirrors.deregister (h : Mirrors before q (Spot.opening .deregister).phases s) :
    AnswersAs before q (.opening .deregister) Session.plainAnswer
      (s.call q.capacity .deregister) := by
  obtain ⟨r, q₁, move, hp, hmoves⟩ := h.step
  cases hp with
  | lowerRefused hp => cases h.exact.producersSound.symm.trans hp
  | lowerUnmatched _ h0 =>
    have hcall : s.call q.capacity .deregister = (s, some (.failed .noProducers)) := by
      rw [Reference.call, ← h.producers_eq, h0]
    exact (hmoves h.hooks h.contents_eq h.producers_eq nofun).through.answers hcall
  | @lower n _ hn =>
    have hcall : s.call q.capacity .deregister =
        let put := { s with producers := n }.put q.capacity .eof
        (put.1, put.2.map Reference.putAnswer) := by
      rw [Reference.call, ← h.producers_eq, hn]
    have hmove := hmoves ((h.hooks.recount n).change [.lowered] rfl rfl rfl rfl) h.contents_eq rfl
      nofun
    rw [hcall]
    refine hmove.go fun q₂ h₂ hcap => ?_
    exact hcap ▸ (h₂.put rfl rfl).answers (by rw [Errand.answer?_put .farewell nofun]; rfl)
  | takeFree hs | waitFree hs | takeFilled hs | waitFilled hs => cases hs

theorem Mirrors.install {stage : Stage} {hook : Hook α} (hcalm : hook.NeverPanics)
    (h : Mirrors before q (Spot.opening (.install stage hook)).phases s) :
    Yields before q (.opening (.install stage hook)) (.through .done) (s.setHook stage hook) := by
  obtain ⟨r, q₁, move, hp, hmoves⟩ := h.step
  cases hp with
  | installRefused hb => cases h.exact.bufferSound.symm.trans hb
  | install =>
    refine (hmoves (h.hooks.setHook hcalm stage) ?_ ?_ nofun).through
    · rw [Reference.slots_setHook, ← h.contents_eq]
      cases stage <;> rfl
    · rw [Reference.producers_setHook, ← h.producers_eq]
      cases stage <;> rfl
  | takeFree hs | waitFree hs | takeFilled hs | waitFilled hs => cases hs

theorem Mirrors.clear (h : Mirrors before q (Spot.opening .clear).phases s) :
    Yields before q (.opening .clear) (.through .done) { s with slots := [], producers := 0 } := by
  obtain ⟨r, q₁, move, hp, hmoves⟩ := h.step
  cases hp with
  | clearRefused hb => cases h.exact.bufferSound.symm.trans hb
  | clearHalfway _ hp => cases h.exact.producersSound.symm.trans hp
  | clear =>
    have hhooks := (h.hooks.entries []).recount 0
    exact (hmoves (hhooks.change [.renewed, .emptied] rfl rfl rfl rfl) (Ring.contents_clear _) rfl
      nofun).through
  | takeFree hs | waitFree hs | takeFilled hs | waitFilled hs => cases hs

/-- **Every call on a queue comes to what it comes to on the reference**, and the queue looks like
the reference afterwards. -/
theorem Mirrors.call {c : Call α} (h : Mirrors before q (Spot.opening c).phases s)
    (hcalm : ∀ stage hook, c = .install stage hook → hook.NeverPanics) :
    AnswersAs before q (.opening c) c.answer (s.call q.capacity c) := by
  cases c with
  | enqueue a =>
    refine (h.put rfl rfl).answers ?_
    show _ = (_, Stop.answer? Session.plainAnswer _)
    rw [Errand.answer?_put (.deliver a) nofun]
    rfl
  | tryEnqueue a =>
    by_cases hfull : s.slots.length = q.capacity
    · refine (h.tryEnqueue_full hfull).answers ?_
      rw [Reference.call, if_pos hfull]
      rfl
    · refine (h.put_of_room rfl hfull).answers ?_
      rw [Call.answer, Errand.answer?_attempt, Reference.call, if_neg hfull]
      rfl
  | dequeue => exact h.take s.slots rfl rfl
  | register => exact h.register.answers rfl
  | deregister => exact h.deregister
  | install stage hook => exact (h.install (hcalm stage hook rfl)).answers rfl
  | clear => exact h.clear.answers rfl

end Queue

end BoundedQueue
