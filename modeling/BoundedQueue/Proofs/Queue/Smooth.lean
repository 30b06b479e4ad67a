import BoundedQueue.Proofs.Queue.Flow

/-!
# Calls that go well

On a queue without hooks, a call fails only for a reason of its own: an attempt finds no slot, or a
producer deregisters that was not registered.  What is proved here is for queues on which neither
ever happens, as in a pipeline.

* `Plain` says that there are no hooks and never were, and that the queue was never cleared.
* `Closed` says that the end of input is the end: once a consumer has come upon it, no producer is
  left and nothing but markers is in the ring.  That is so when the consumer concludes it
  (`Passage.concludes`), and it stays so because nobody registers any more, and no item is stored
  without a producer (`Passage.producers_eq_zero`, `Passage.only_markers`).
* `Smooth` is both of these, together with exact books, and with the fact that no call in progress
  has failed.

`Passage.smooth` says that it stays so as long as items are handed in while there is a producer, and
only producers that are registered deregister.  It does not say who sees to that, which is a matter
of what tasks are told to do.
-/

set_option autoImplicit false

namespace BoundedQueue

variable {α : Type}

/-- Whether a note can be made on a queue that has no hooks and is never cleared. -/
def Note.isPlain : Note α → Bool
  | .consulted _ _ _ | .emptied | .renewed => false
  | _ => true

namespace Phase

/-- Whether a call at a phase has failed. -/
def isTroubled : Phase α → Bool
  | .refundFree _ _ | .settle _ (some _) | .refundFilled _ | .fail _ => true
  | _ => false

/-- Whether a call at a phase has come upon the end of input. -/
def drains : Phase α → Bool
  | .vacate .concluded | .passOn => true
  | .askFree .relay | .awaitFree .relay | .store .relay | .refundFree .relay _ | .publish .relay
  | .settle .relay _ => true
  | _ => false

/-- Among the phases of an errand, all are those of a call that has come upon the end of input, or
none is. -/
theorem drains_of_errand {p p' : Phase α} {errand : Errand α} (h : p.errand? = some errand)
    (h' : p'.errand? = some errand) (hd : p.drains = true) : p'.drains = true := by
  have hrelay : errand = .relay := by
    cases p <;> cases h <;> cases errand <;> first | rfl | cases hd
  subst hrelay
  cases p' <;> cases h' <;> rfl

end Phase

/-- Whether a spot is that of a call that waits for its slot or its item, or of a producer that
leaves. -/
def Spot.isPlain : Spot α → Bool
  | opening (.enqueue _) | opening .dequeue | opening .deregister => true
  | opening _ => false
  | phase _ => true

/-- How many producers leave in the section at a spot. -/
def Spot.lowerings : Spot α → Nat
  | opening .deregister => 1
  | _ => 0

namespace Queue

variable {q q' q₁ : Queue α} {spot : Spot α} {r : Option Remark}
  {move : Move (Phase α) Side (Outcome α)} {others : Multiset (Phase α)}

/-! ## Without hooks -/

/-- There are no hooks and never were, and the queue was never cleared. -/
structure Plain (q : Queue α) : Prop where
  enqueue_eq : q.onEnqueue = none
  dequeue_eq : q.onDequeue = none
  notes : ∀ n ∈ q.history, n.isPlain = true

/-- Where there is no hook, every entry is accepted. -/
theorem Plain.consult (h : q.Plain) {stage : Stage} {entry : Entry α} {v : Verdict}
    (hc : q.consult stage entry = (v, q₁)) : v = .accept ∧ q₁ = q := by
  have hnone : q.hook? stage = none := by
    cases stage with
    | enqueue => exact h.enqueue_eq
    | dequeue => exact h.dequeue_eq
  rw [Queue.consult, hnone] at hc
  cases hc
  exact ⟨rfl, rfl⟩

theorem Plain.change (h : q.Plain) (notes : List (Note α))
    (henqueue : q'.onEnqueue = q.onEnqueue) (hdequeue : q'.onDequeue = q.onDequeue)
    (hhistory : q'.history = notes ++ q.history) (hnotes : notes.all Note.isPlain = true) :
    q'.Plain := by
  refine ⟨henqueue.trans h.enqueue_eq, hdequeue.trans h.dequeue_eq, fun n hn => ?_⟩
  rw [hhistory, List.mem_append] at hn
  rcases hn with hn | hn
  · exact List.all_eq_true.1 hnotes n hn
  · exact h.notes n hn

/-- No hook comes up by itself. -/
theorem Passage.plain (h : Passage q spot r q' move) (hq : q.Plain)
    (hs : spot.isPlain = true) : q'.Plain := by
  cases h with
  | storePanicked hb hc | storeRejected hb hc => cases (hq.consult hc).1
  | fetchPanicked hb hr hc | fetchRejected hb hr hc => cases (hq.consult hc).1
  | push hb hc | popItem hb hc | popBlind hb hc =>
    obtain rfl := (hq.consult hc).2
    exact hq.change [_] rfl rfl rfl rfl
  | popAbsorbed hb hc | popConcluded hb hc =>
    obtain rfl := (hq.consult hc).2
    exact hq.change [_, _] rfl rfl rfl rfl
  | lower | leaveOut => exact hq.change [_] rfl rfl rfl rfl
  | full | raise | raiseRefused | install | installRefused | clear | clearHalfway | clearRefused =>
    cases hs
  | _ => exact hq.change [] rfl rfl rfl rfl

/-! ## Without failures -/

/-- No call fails for want of a slot, an entry or a producer. -/
theorem Passage.untroubled (h : Passage q spot r q' move) (hq : q.Plain)
    (hexact : q.Exact (spot.phases + others)) (hring : q.ring.Sound) (hs : spot.isPlain = true)
    (hspot : ∀ p ∈ spot.phases, p.isTroubled = false)
    (hlower : spot = .opening .deregister → q.producers ≠ 0) :
    (∀ p ∈ move.phases, p.isTroubled = false) ∧ ∀ o, move = .finish o → o.isWell = true := by
  cases h with
  | storePanicked hb hc | storeRejected hb hc => cases (hq.consult hc).1
  | fetchPanicked hb hr hc | fetchRejected hb hr hc => cases (hq.consult hc).1
  | storeRefused errand hb => cases hexact.bufferSound.symm.trans hb
  | fetchRefused hb => cases hexact.bufferSound.symm.trans hb
  | popBlind hb hc hr hl hp => cases hexact.producersSound.symm.trans hp
  | lowerRefused hp => cases hexact.producersSound.symm.trans hp
  | lowerUnmatched hp h0 => exact absurd h0 (hlower rfl)
  | fetchEmpty hb hr => exact absurd (hring.peek?_eq_none_iff.1 hr) (hexact.len_pos rfl)
  | refundFree | refundFilled | fail | settleFarewell | settleFailed =>
    cases hspot _ (Multiset.mem_singleton_self _)
  | full | raise | raiseRefused | install | installRefused | clear | clearHalfway | clearRefused =>
    cases hs
  | vacate find =>
    cases find <;>
      exact ⟨by simp [Move.phases, afterVacating, Phase.isTroubled], fun o ho => by cases ho⟩
  | settleRelay | settleDone | handOver | leaveOut =>
    exact ⟨fun p hp => absurd hp (Multiset.notMem_zero p), fun o ho => by cases ho; rfl⟩
  | _ => exact ⟨by simp [Move.phases, Phase.isTroubled], fun o ho => by cases ho⟩

/-! ## The end of input -/

/-- Once a consumer has come upon the end of input, no producer is left, and nothing but markers is
in the ring. -/
structure Closed (q : Queue α) (phases : Multiset (Phase α)) : Prop where
  concluded : ∀ p ∈ phases, p.drains = true → .concluded ∈ q.history
  final : .concluded ∈ q.history → q.producers = 0 ∧ ∀ entry ∈ q.ring.contents, entry = .eof

theorem drains_of_asksFree {errand : Errand α} (h : spot.asksFree = some errand) {p : Phase α}
    (hp : p.errand? = some errand) (hd : p.drains = true) :
    ∃ p' ∈ spot.phases, p'.drains = true := by
  cases spot with
  | opening c =>
    obtain ⟨a, rfl⟩ : ∃ a, errand = .deliver a := by
      cases c <;> cases h <;> exact ⟨_, rfl⟩
    cases p <;> cases hp <;> cases hd
  | phase p' =>
    exact ⟨p', Multiset.mem_singleton_self _, Phase.drains_of_errand hp (errand?_of_asksFree h) hd⟩

/-- A call that has come upon the end of input did so before, and pops nothing more, or it does so
now: it pops a marker that is the last entry, and no producer is left. -/
theorem Passage.drains_cases (h : Passage q spot r q' move) (hring : q.ring.Sound)
    {notes : List (Note α)} (hn : q'.history = notes ++ q.history) {p : Phase α}
    (hp : p ∈ move.phases) (hd : p.drains = true) :
    (∃ p' ∈ spot.phases, p'.drains = true) ∧ notes.filterMap Note.popped? = [] ∨
      .concluded ∈ notes ∧ .popped .eof ∈ notes ∧ q.producers = 0 ∧ q.ring.contents = [.eof] ∧
        q'.producers = 0 ∧ q'.ring.contents = [] := by
  have hnotes (notes' : List (Note α)) (hn' : q'.history = notes' ++ q.history) :
      notes' = notes := List.append_cancel_right (hn'.symm.trans hn)
  cases h with
  | takeFree hs | waitFree hs =>
    obtain rfl := hnotes [] rfl
    obtain rfl := Multiset.mem_singleton.1 hp
    exact .inl ⟨drains_of_asksFree hs rfl hd, rfl⟩
  | storeRefused | refundFree | publish =>
    obtain rfl := hnotes [] rfl
    obtain rfl := Multiset.mem_singleton.1 hp
    exact .inl ⟨⟨_, Multiset.mem_singleton_self _, Phase.drains_of_errand rfl rfl hd⟩, rfl⟩
  | storeRejected hb hc =>
    obtain rfl := Multiset.mem_singleton.1 hp
    obtain ⟨onE, onD, shown, hshown, rfl⟩ := exists_of_consult hc
    obtain rfl := hnotes shown rfl
    exact .inl ⟨⟨_, Multiset.mem_singleton_self _, Phase.drains_of_errand rfl rfl hd⟩,
      (entries_of_shown hshown).2⟩
  | push hb hc =>
    obtain rfl := Multiset.mem_singleton.1 hp
    obtain ⟨onE, onD, shown, hshown, rfl⟩ := exists_of_consult hc
    obtain rfl := hnotes (_ :: shown) rfl
    exact .inl ⟨⟨_, Multiset.mem_singleton_self _, Phase.drains_of_errand rfl rfl hd⟩,
      (entries_of_shown hshown).2⟩
  | @popConcluded _ ring hb hc hr hl hp h0 =>
    rw [(hring.pop hr).isEmpty_eq, List.isEmpty_iff] at hl
    have hcontents : q.ring.contents = [.eof] := by rw [hring.contents_pop hr, hl]
    obtain ⟨onE, onD, shown, -, rfl⟩ := exists_of_consult hc
    obtain rfl := hnotes (.concluded :: .popped .eof :: shown) rfl
    exact .inr ⟨List.mem_cons_self, List.mem_cons_of_mem _ List.mem_cons_self, h0, hcontents, h0,
      hl⟩
  | vacate find =>
    obtain rfl := hnotes [] rfl
    obtain rfl := Multiset.mem_singleton.1 hp
    refine .inl ⟨⟨_, Multiset.mem_singleton_self _, ?_⟩, rfl⟩
    cases find <;> first | rfl | cases hd
  | passOn =>
    obtain rfl := hnotes [] rfl
    exact .inl ⟨⟨_, Multiset.mem_singleton_self _, rfl⟩, rfl⟩
  | takeFilled | waitFilled | fetchRejected | popItem | popAbsorbed | refundFilled | lower =>
    obtain rfl := Multiset.mem_singleton.1 hp
    cases hd
  | _ => exact absurd hp (Multiset.notMem_zero p)

/-- Only a call that has come upon the end of input ends with it. -/
theorem Passage.drained_cases (h : Passage q spot r q' (.finish .drained)) :
    ∃ p ∈ spot.phases, p.drains = true := by
  cases h with
  | settleRelay | leaveOut => exact ⟨_, Multiset.mem_singleton_self _, rfl⟩

/-- Where no producer is left, it stays so until one is registered. -/
theorem Passage.producers_eq_zero (h : Passage q spot r q' move) {notes : List (Note α)}
    (hn : q'.history = notes ++ q.history)
    (hraise : spot = .opening .register → .raised ∉ notes) (h0 : q.producers = 0) :
    q'.producers = 0 := by
  by_cases hr : spot = .opening .register
  · subst hr
    rcases h.register_cases with ⟨-, rfl⟩ | ⟨rfl, -⟩
    · exact h0
    · obtain rfl : [.raised] = notes := List.append_cancel_right hn
      exact absurd List.mem_cons_self (hraise rfl)
  by_cases hd : spot = .opening .deregister
  · subst hd
    rcases h.deregister_cases with ⟨-, rfl, -⟩ | ⟨n, hs, -⟩
    · exact h0
    · exact absurd (h0.symm.trans hs) nofun
  by_cases hc : spot = .opening .clear
  · subst hc
    cases h with
    | clear => rfl
    | clearHalfway | clearRefused => exact h0
    | takeFree hs | waitFree hs | takeFilled hs | waitFilled hs => cases hs
  · exact (h.producers_eq hr hd hc).1.trans h0

/-- Where nothing but markers is in the ring, it stays so, and nothing else goes in or comes out, as
long as no item is stored. -/
theorem Passage.only_markers (h : Passage q spot r q' move) (hring : q.ring.Sound)
    {notes : List (Note α)} (hn : q'.history = notes ++ q.history)
    (hstore : ∀ a, spot = .phase (.store (.deliver a)) → move ≠ .go (.publish (.deliver a)))
    (heof : ∀ entry ∈ q.ring.contents, entry = .eof) :
    (∀ entry ∈ q'.ring.contents, entry = .eof) ∧
      (∀ entry ∈ notes.filterMap Note.pushed?, entry = .eof) ∧
      ∀ entry ∈ notes.filterMap Note.popped?, entry = .eof := by
  have hnotes (notes' : List (Note α)) (hn' : q'.history = notes' ++ q.history) :
      notes' = notes := List.append_cancel_right (hn'.symm.trans hn)
  have hpop {entry : Entry α} {ring : Ring (Entry α)} (hr : q.ring.pop? = some (entry, ring)) :
      ∀ entry ∈ ring.contents, entry = .eof := fun entry he =>
    heof entry (hring.contents_pop hr ▸ List.mem_cons_of_mem _ he)
  have hnone : ∀ entry ∈ ([] : List (Entry α)), entry = .eof := nofun
  have hone {entries : List (Entry α)} (he : entries = []) : ∀ entry ∈ .eof :: entries,
      entry = .eof := by simp [he]
  cases h with
  | storePanicked hb hc | storeRejected hb hc | fetchPanicked hb hr hc | fetchRejected hb hr hc =>
    obtain ⟨onE, onD, shown, hshown, rfl⟩ := exists_of_consult hc
    obtain rfl := hnotes shown rfl
    obtain ⟨hin, hout⟩ := entries_of_shown hshown
    exact ⟨heof, hin ▸ hnone, hout ▸ hnone⟩
  | @push errand _ ring hb hc hr =>
    have hentry : errand.entry = .eof := by
      cases errand with
      | deliver a => exact absurd rfl (hstore a rfl)
      | farewell | relay => rfl
    obtain ⟨onE, onD, shown, hshown, rfl⟩ := exists_of_consult hc
    obtain rfl := hnotes (.pushed errand.entry :: shown) rfl
    obtain ⟨hin, hout⟩ := entries_of_shown hshown
    rw [hentry] at hr ⊢
    refine ⟨fun entry he => ?_, ?_, hout ▸ hnone⟩
    · rcases List.mem_append.1 (hring.contents_push hr ▸ he) with he | he
      · exact heof entry he
      · exact hone rfl entry he
    · exact hone hin
  | popItem hb hc hr =>
    cases heof _ (hring.contents_pop hr ▸ List.mem_cons_self)
  | popAbsorbed hb hc hr | popConcluded hb hc hr =>
    obtain ⟨onE, onD, shown, hshown, rfl⟩ := exists_of_consult hc
    obtain rfl := hnotes (_ :: .popped .eof :: shown) rfl
    obtain ⟨hin, hout⟩ := entries_of_shown hshown
    exact ⟨hpop hr, hin ▸ hnone, hone hout⟩
  | popBlind hb hc hr =>
    obtain ⟨onE, onD, shown, hshown, rfl⟩ := exists_of_consult hc
    obtain rfl := hnotes (.popped .eof :: shown) rfl
    obtain ⟨hin, hout⟩ := entries_of_shown hshown
    exact ⟨hpop hr, hin ▸ hnone, hone hout⟩
  | raise | lower | leaveOut =>
    obtain rfl := hnotes [_] rfl
    exact ⟨heof, hnone, hnone⟩
  | @install stage =>
    obtain rfl := hnotes [] (by cases stage <;> rfl)
    exact ⟨by cases stage <;> exact heof, hnone, hnone⟩
  | clear =>
    obtain rfl := hnotes [_, _] rfl
    exact ⟨hnone, hnone, hnone⟩
  | clearHalfway =>
    obtain rfl := hnotes [_] rfl
    exact ⟨hnone, hnone, hnone⟩
  | _ =>
    obtain rfl := hnotes [] rfl
    exact ⟨heof, hnone, hnone⟩

/-- A consumer comes upon the end of input when no producer is left and the ring is empty. -/
theorem Passage.concludes (h : Passage q spot r q' move) (hq : q.Plain) (hring : q.ring.Sound)
    (hs : spot.isPlain = true) (hn : .concluded ∈ q'.history) :
    .concluded ∈ q.history ∨ q'.producers = 0 ∧ q'.ring.contents = [] := by
  cases h with
  | storePanicked hb hc | storeRejected hb hc => cases (hq.consult hc).1
  | fetchPanicked hb hr hc | fetchRejected hb hr hc => cases (hq.consult hc).1
  | raise | raiseRefused | install | installRefused | clear | clearHalfway | clearRefused =>
    cases hs
  | push hb hc | popItem hb hc | popAbsorbed hb hc | popBlind hb hc =>
    obtain rfl := (hq.consult hc).2
    exact .inl (by simpa [note] using hn)
  | leaveOut | lower => exact .inl (by simpa [note] using hn)
  | @popConcluded _ ring hb hc hr hl hp h0 =>
    obtain rfl := (hq.consult hc).2
    rw [(hring.pop hr).isEmpty_eq, List.isEmpty_iff] at hl
    exact .inr ⟨h0, hl⟩
  | _ => exact .inl hn

/-- **The end of input is the end**, as long as items are handed in while there is a producer. -/
theorem Passage.closed (h : Passage q spot r q' move) (hq : q.Plain) (hring : q.ring.Sound)
    (hs : spot.isPlain = true) (hescort : ∀ p ∈ move.phases, p.delivers = true → q.producers ≠ 0)
    (hclosed : q.Closed (spot.phases + others)) :
    q'.Closed (move.phases + others) ∧ (move = .finish .drained → .concluded ∈ q'.history) := by
  obtain ⟨notes, hnotes⟩ := h.kept.history_eq
  have hmono (hc : .concluded ∈ q.history) : .concluded ∈ q'.history :=
    hnotes ▸ List.mem_append_right _ hc
  have hspot : (∃ p ∈ spot.phases, p.drains = true) → .concluded ∈ q.history := fun ⟨p, hp, hd⟩ =>
    hclosed.concluded p (Multiset.mem_add.2 (.inl hp)) hd
  refine ⟨⟨fun p hp hd => ?_, fun hn => ?_⟩, fun hm => ?_⟩
  · rcases Multiset.mem_add.1 hp with hp | hp
    · rcases h.drains_cases hring hnotes hp hd with ⟨hbefore, -⟩ | ⟨hnow, -⟩
      · exact hmono (hspot hbefore)
      · exact hnotes ▸ List.mem_append_left _ hnow
    · exact hmono (hclosed.concluded p (Multiset.mem_add.2 (.inr hp)) hd)
  · rcases h.concludes hq hring hs hn with hc | ⟨h0, hnil⟩
    · obtain ⟨h0, heof⟩ := hclosed.final hc
      have hraise : spot = .opening .register → .raised ∉ notes := fun hr => by subst hr; cases hs
      refine ⟨h.producers_eq_zero hnotes hraise h0, (h.only_markers hring hnotes ?_ heof).1⟩
      rintro a - rfl
      exact hescort _ (Multiset.mem_singleton_self _) rfl h0
    · exact ⟨h0, fun entry he => by rw [hnil] at he; cases he⟩
  · subst hm
    exact hmono (hspot h.drained_cases)

/-! ## All of it -/

/-- There are no hooks, no call in progress has failed, and the end of input is the end. -/
structure Smooth (q : Queue α) (phases : Multiset (Phase α)) : Prop where
  plain : q.Plain
  exact : q.Exact phases
  told : q.Told phases
  untroubled : ∀ p ∈ phases, p.isTroubled = false
  closed : q.Closed phases

/-- **Calls go well** as long as items are handed in while there is a producer, and only producers
that are registered deregister. -/
theorem Passage.smooth (h : Passage q spot r q' move) (hring : q.ring.Sound)
    (hq : q.Smooth (spot.phases + others)) (hs : spot.isPlain = true)
    (hescort : ∀ p ∈ move.phases, p.delivers = true → q.producers ≠ 0)
    (hlower : spot = .opening .deregister → q.producers ≠ 0) :
    q'.Smooth (move.phases + others) ∧ (∀ o, move = .finish o → o.isWell = true) ∧
      (move = .finish .drained → .concluded ∈ q'.history) := by
  have hplain := h.plain hq.plain hs
  have hspot : ∀ p ∈ spot.phases, p.isTroubled = false := fun p hp =>
    hq.untroubled p (Multiset.mem_add.2 (.inl hp))
  obtain ⟨huntroubled, hwell⟩ := h.untroubled hq.plain hq.exact hring hs hspot hlower
  obtain ⟨hclosed, hdrained⟩ := h.closed hq.plain hring hs hescort hq.closed
  have hmove (text : String) : move ≠ .finish (.panicked text) := fun hm => by
    cases hwell _ hm
  have halone (hc : spot = .opening .clear) : others = 0 := by subst hc; cases hs
  have hexact := hq.exact.passage hring h halone hmove
  refine ⟨⟨hplain, hexact, ?_, fun p hp => ?_, hclosed⟩, hwell, hdrained⟩
  · refine h.told hring hq.exact hmove (fun cause hm => ?_) (fun p hp hd => ?_) hq.told
    · cases hplain.notes _ hm
    · have hne : spot ≠ .opening .deregister := by
        rintro rfl
        rcases h.deregister_cases with ⟨-, -, e, rfl⟩ | ⟨n, -, -, rfl⟩
        · exact absurd hp.symm (Multiset.singleton_ne_zero p)
        · obtain rfl := Multiset.singleton_inj.1 hp
          cases hd
      rw [(h.producers_eq (fun hr => by subst hr; cases hs) hne fun hc => by subst hc; cases hs).1]
      exact hescort p (hp ▸ Multiset.mem_singleton_self p) hd
  · rcases Multiset.mem_add.1 hp with hp | hp
    · exact huntroubled p hp
    · exact hq.untroubled p (Multiset.mem_add.2 (.inr hp))

/-- A producer that leaves is counted as a departure. -/
theorem Passage.producers_add (h : Passage q spot r q' move) (hs : spot.isPlain = true)
    (hsound : q.producersPoisoned = false)
    (hlower : spot = .opening .deregister → q.producers ≠ 0) :
    q'.producers + spot.lowerings = q.producers ∧
      q'.departures = q.departures + spot.lowerings := by
  by_cases hd : spot = .opening .deregister
  · subst hd
    rcases h.deregister_cases with ⟨hp | h0, -⟩ | ⟨n, hn, rfl, -⟩
    · cases hsound.symm.trans hp
    · exact absurd h0 (hlower rfl)
    · exact ⟨hn.symm, departures_lower q n⟩
  · have hnone : spot.lowerings = 0 := by
      cases spot with
      | phase => rfl
      | opening c => cases c <;> first | rfl | exact absurd rfl hd
    rw [hnone]
    exact h.producers_eq (fun hr => by subst hr; cases hs) hd fun hc => by subst hc; cases hs

theorem Smooth.record (h : q.Smooth others) (log : Logbook) :
    { q with log := log : Queue α }.Smooth others := by
  obtain ⟨⟨henq, hdeq, hshown⟩, ⟨hb, hp, hfree, hfilled⟩, htold, huntroubled, hclosed⟩ := h
  exact ⟨⟨henq, hdeq, hshown⟩, ⟨hb, hp, hfree, hfilled⟩, htold, huntroubled, ⟨hclosed.1, hclosed.2⟩⟩

/-- A consumer that asks for the next item has not failed. -/
theorem Smooth.askFilled (h : q.Smooth others) : q.Smooth ({.askFilled} + others) := by
  refine ⟨h.plain, h.exact.askFilled, fun h0 hdep => (h.told h0 hdep).add, fun p hp => ?_,
    ⟨fun p hp hd => ?_, h.closed.final⟩⟩
  · rcases Multiset.mem_add.1 hp with hp | hp
    · rw [Multiset.mem_singleton.1 hp]; rfl
    · exact h.untroubled p hp
  · rcases Multiset.mem_add.1 hp with hp | hp
    · rw [Multiset.mem_singleton.1 hp] at hd; cases hd
    · exact h.closed.concluded p hp hd

end Queue

end BoundedQueue
