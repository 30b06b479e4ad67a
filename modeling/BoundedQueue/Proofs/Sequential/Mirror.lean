import BoundedQueue.Proofs.Queue.Faults
import BoundedQueue.Proofs.Sequential.Reference

/-!
# A queue that looks like a reference

A `Reference` makes a call in one go.  To compare a queue with it, one has to say what a call on a
queue comes to as a whole, and what the queue has to do with the reference meanwhile.

* `Queue.Runs` says how far a call gets when its sections are carried out one after the other, with
  no other call in between: to its end, or to where it waits.  `Stop` is the one or the other.
* A queue `Mirrors` a reference with the same entries, producers and hooks, whose hooks were shown
  the same entries.  Its books agree to the last slot, so that a call that holds nothing finds a
  free permit for every free slot (`Mirrors.permits`), and no trap is set for the logger.  A mirror
  may have one call in progress, with whatever that holds; between calls there is none.
* `Queue.SameHooks` is the part of it that is about hooks.  Hooks have a state, so the two queues
  have to have shown them the same entries; `SameHooks.consult` says that they then decide the same.

Where a section leads and what it leaves a mirror of is said by `Queue.Moves`, and for the rest of a
call by `Queue.Ends`, of which `Queue.Yields` and `Queue.AnswersAs` are two uses.  `Moves.go`,
`Moves.signal` and `Moves.waits` put a section in front of the rest of its call, so that the proofs
about whole calls never mention `Runs`.
-/

set_option autoImplicit false

namespace BoundedQueue

variable {α : Type}

/-- How far a call gets by itself. -/
inductive Stop (α : Type) where
  | through (o : Outcome α)
  /-- The call waits, and would go on at a phase. -/
  | waits (side : Side) (p : Phase α)

/-- The phase in which a call stops; a call that is over is in none. -/
def Stop.phases : Stop α → Multiset (Phase α)
  | through _ => 0
  | waits _ p => {p}

/-- The answer to a call that is over. -/
def Stop.answer? (answer : Outcome α → Answer α) : Stop α → Option (Answer α)
  | through o => some (answer o)
  | waits _ _ => none

/-- What a call is answered, by how it ends. -/
def Call.answer : Call α → Outcome α → Answer α
  | tryEnqueue _ => Session.attemptAnswer
  | _ => Session.plainAnswer

namespace Queue

/-- A call at a spot gets as far as `stop` and leaves the queue `q'`. -/
inductive Runs : Queue α → Spot α → Queue α → Stop α → Prop where
  | through {q q' : Queue α} {spot : Spot α} {o : Outcome α}
      (h : q.sectionAt spot = (q', .finish o)) : Runs q spot q' (.through o)
  | waits {q q' : Queue α} {spot : Spot α} {side : Side} {p : Phase α}
      (h : q.sectionAt spot = (q', .wait side p)) : Runs q spot q' (.waits side p)
  | go {q q₁ q' : Queue α} {spot : Spot α} {p : Phase α} {stop : Stop α}
      (h : q.sectionAt spot = (q₁, .go p)) (hr : Runs q₁ (.phase p) q' stop) : Runs q spot q' stop
  | signal {q q₁ q' : Queue α} {spot : Spot α} {side : Side} {p : Phase α} {stop : Stop α}
      (h : q.sectionAt spot = (q₁, .signal side p)) (hr : Runs q₁ (.phase p) q' stop) :
      Runs q spot q' stop

/-! ## Hooks -/

/-- A queue and a reference have the same hooks, none of which panics, and these were shown the same
entries since the history was `before`. -/
structure SameHooks (before : List (Note α)) (q : Queue α) (s : Reference α) : Prop where
  enqueue_eq : q.onEnqueue = s.onEnqueue
  dequeue_eq : q.onDequeue = s.onDequeue
  shown_eq : ∃ new, q.history = new ++ before ∧ shownIn new = s.shown
  never_panic : ∀ hook, s.onEnqueue = some hook ∨ s.onDequeue = some hook → hook.NeverPanics

variable {before : List (Note α)} {q q' q₁ : Queue α} {s s' : Reference α} {spot : Spot α}
  {stage : Stage} {entry : Entry α}

theorem SameHooks.hook?_eq (h : SameHooks before q s) (stage : Stage) :
    q.hook? stage = s.hook? stage := by
  cases stage with
  | enqueue => exact h.enqueue_eq
  | dequeue => exact h.dequeue_eq

theorem SameHooks.calm (h : SameHooks before q s) {hook : Hook α}
    (hhook : s.hook? stage = some hook) : hook.NeverPanics := by
  cases stage with
  | enqueue => exact h.never_panic hook (.inl hhook)
  | dequeue => exact h.never_panic hook (.inr hhook)

theorem SameHooks.setHook (h : SameHooks before q s) {hook : Hook α} (hcalm : hook.NeverPanics)
    (stage : Stage) : SameHooks before (q.setHook stage hook) (s.setHook stage hook) := by
  obtain ⟨henq, hdeq, hshown, hpanic⟩ := h
  cases stage with
  | enqueue =>
    refine ⟨rfl, hdeq, hshown, fun hook' hhook => ?_⟩
    rcases hhook with hhook | hhook
    · cases hhook; exact hcalm
    · exact hpanic hook' (.inr hhook)
  | dequeue =>
    refine ⟨henq, rfl, hshown, fun hook' hhook => ?_⟩
    rcases hhook with hhook | hhook
    · exact hpanic hook' (.inl hhook)
    · cases hhook; exact hcalm

/-- The hooks depend on nothing else of the queue, and what is noted otherwise is no business of
theirs. -/
theorem SameHooks.change (h : SameHooks before q s) (notes : List (Note α))
    (henq : q'.onEnqueue = q.onEnqueue) (hdeq : q'.onDequeue = q.onDequeue)
    (hhistory : q'.history = notes ++ q.history) (hnotes : shownIn notes = []) :
    SameHooks before q' s := by
  obtain ⟨new, hnew, hshown⟩ := h.shown_eq
  refine ⟨henq.trans h.enqueue_eq, hdeq.trans h.dequeue_eq, ⟨notes ++ new, ?_, ?_⟩, h.never_panic⟩
  · rw [hhistory, hnew, List.append_assoc]
  · rw [shownIn, List.filterMap_append, ← shownIn, ← shownIn, hnotes, hshown, List.nil_append]

/-- The entries of a reference are no business of its hooks. -/
theorem SameHooks.entries (h : SameHooks before q s) (slots : List (Entry α)) :
    SameHooks before q { s with slots := slots } :=
  ⟨h.enqueue_eq, h.dequeue_eq, h.shown_eq, h.never_panic⟩

/-- Nor is the number of producers. -/
theorem SameHooks.recount (h : SameHooks before q s) (producers : Nat) :
    SameHooks before q { s with producers := producers } :=
  ⟨h.enqueue_eq, h.dequeue_eq, h.shown_eq, h.never_panic⟩

/-- The same hooks decide the same. -/
theorem SameHooks.consult (h : SameHooks before q s) {v : Verdict}
    (hc : q.consult stage entry = (v, q₁)) : SameHooks before q₁ (s.consult stage entry).2 ∧
      (v = .accept ∧ (s.consult stage entry).1 = none ∨
        ∃ cause, v = .reject cause ∧ (s.consult stage entry).1 = some cause) := by
  rw [Queue.consult, h.hook?_eq] at hc
  rw [Reference.consult]
  rcases hhook : s.hook? stage with - | hook
  · rw [hhook] at hc
    cases hc
    exact ⟨h, .inl ⟨rfl, rfl⟩⟩
  · rw [hhook] at hc
    cases hc
    have hcalm := h.calm hhook
    have hremember : (hook.remember entry).NeverPanics := hcalm
    obtain ⟨henq, hdeq, ⟨new, hhistory, hshown⟩, hpanic⟩ := h.setHook hremember stage
    refine ⟨⟨henq, hdeq, ⟨_ :: new, congrArg _ hhistory, ?_⟩, hpanic⟩, ?_⟩
    · rw [Reference.shown_setHook] at hshown
      exact congrArg _ hshown
    · rcases hv : hook.judge entry with - | cause | text
      · exact .inl ⟨rfl, congrArg Verdict.cause? hv⟩
      · exact .inr ⟨cause, rfl, congrArg Verdict.cause? hv⟩
      · exact absurd hv (hcalm _ _ _)

/-! ## Mirrors -/

/-- A queue with at most one call in progress that looks like a reference: it has the same entries,
producers and hooks, its books agree, and no logger is going to panic. -/
structure Mirrors (before : List (Note α)) (q : Queue α) (phases : Multiset (Phase α))
    (s : Reference α) : Prop where
  exact : q.Exact phases
  within : q.Within phases
  contents_eq : q.ring.contents = s.slots
  producers_eq : q.producers = s.producers
  hooks : SameHooks before q s
  trap_eq : q.log.trap = none

/-- The call at a spot stops somewhere, and leaves a mirror of some reference: of these two, `P`
holds. -/
def Ends (before : List (Note α)) (q : Queue α) (spot : Spot α) (P : Stop α → Reference α → Prop) :
    Prop :=
  ∃ q' stop s', Runs q spot q' stop ∧ Mirrors before q' stop.phases s' ∧
    q'.capacity = q.capacity ∧ P stop s'

/-- The call at a spot stops at `stop`, and leaves a mirror of `s'`. -/
def Yields (before : List (Note α)) (q : Queue α) (spot : Spot α) (stop : Stop α)
    (s' : Reference α) : Prop :=
  Ends before q spot fun stop₁ s₁ => stop₁ = stop ∧ s₁ = s'

/-- The call at a spot has the answer in `result`, if there is one, and leaves a mirror of the
reference in `result`. -/
def AnswersAs (before : List (Note α)) (q : Queue α) (spot : Spot α)
    (answer : Outcome α → Answer α) (result : Reference α × Option (Answer α)) : Prop :=
  Ends before q spot fun stop s' => result = (s', stop.answer? answer)

theorem remarked_of_no_trap (h : q.log.trap = none) (move : Move (Phase α) Side (Outcome α))
    (r : Option Remark) :
    ∃ log, log.trap = none ∧ q.remarked move r = ({ q with log := log }, move) := by
  have hspring (r : Record) : q.log.springs r = false := by rw [Logbook.springs, h]
  rcases r with - | ⟨r, - | lock⟩
  · exact ⟨q.log, h, rfl⟩
  · refine ⟨q.log.write r, by simp [Logbook.write, h], ?_⟩
    simp only [remarked, logged, hspring, Bool.false_eq_true, if_false]
    rfl
  · refine ⟨q.log.write r, by simp [Logbook.write, h], ?_⟩
    simp only [remarked, loggedUnder, hspring, Bool.false_eq_true, if_false]
    rfl

variable {phases : Multiset (Phase α)}

/-- The section at a spot ends in a move, and leaves a mirror of `s'`. -/
def Moves (before : List (Note α)) (q : Queue α) (spot : Spot α)
    (move : Move (Phase α) Side (Outcome α)) (s' : Reference α) : Prop :=
  ∃ q₁, q.sectionAt spot = (q₁, move) ∧ Mirrors before q₁ move.phases s' ∧
    q₁.capacity = q.capacity

/-- The next section is a passage, and leaves a mirror of whatever reference has the same entries,
producers and hooks. -/
theorem Mirrors.step (h : Mirrors before q spot.phases s) :
    ∃ r q₁ move, q.Passage spot r q₁ move ∧ ∀ {s'}, SameHooks before q₁ s' →
      q₁.ring.contents = s'.slots → q₁.producers = s'.producers →
        (∀ text, move ≠ .finish (.panicked text)) → Moves before q spot move s' := by
  have hexact := h.exact
  have hwithin := h.within
  rw [← add_zero spot.phases] at hexact hwithin
  obtain ⟨r, q₁, move, hp, hsec⟩ := exists_passage hwithin.workable
  obtain ⟨log, htrap, hlog⟩ := remarked_of_no_trap (hp.log_eq.symm ▸ h.trap_eq) move r
  refine ⟨r, q₁, move, hp, fun hhooks hcontents hproducers hcalm => ?_⟩
  obtain ⟨hbuffer, hlock, hfree, hfilled⟩ :=
    hexact.passage h.within.ringSound hp (fun _ => rfl) hcalm
  have hafter := hwithin.passage hp fun _ => rfl
  rw [add_zero] at hfree hfilled
  rw [← add_comm] at hafter
  refine ⟨{ q₁ with log := log }, hsec.trans hlog, ⟨⟨hbuffer, hlock, hfree, hfilled⟩,
    hafter.change log _ _, hcontents, hproducers, ?_, htrap⟩, hp.kept.capacity_eq⟩
  exact ⟨hhooks.enqueue_eq, hhooks.dequeue_eq, hhooks.shown_eq, hhooks.never_panic⟩

/-- A fresh queue looks like a fresh reference. -/
theorem mirrors_fresh {capacity : Nat} {onEnqueue onDequeue : Option (Hook α)} (hpos : 0 < capacity)
    (hmax : capacity ≤ Semaphore.maxPermits) (log : Logbook) (htrap : log.trap = none)
    (hcalm : ∀ hook, onEnqueue = some hook ∨ onDequeue = some hook → hook.NeverPanics) :
    Mirrors [] (fresh capacity onEnqueue onDequeue log) 0 (.fresh onEnqueue onDequeue) where
  exact := exact_fresh capacity onEnqueue onDequeue log
  within := within_fresh hpos hmax onEnqueue onDequeue log
  contents_eq := Ring.contents_empty capacity
  producers_eq := rfl
  hooks := ⟨rfl, rfl, ⟨[], rfl, rfl⟩, hcalm⟩
  trap_eq := htrap

/-- Between two calls, a new record is begun of what the hooks are shown. -/
theorem Mirrors.renew (h : Mirrors before q phases s) :
    Mirrors q.history q phases { s with shown := [] } where
  exact := h.exact
  within := h.within
  contents_eq := h.contents_eq
  producers_eq := h.producers_eq
  hooks := ⟨h.hooks.enqueue_eq, h.hooks.dequeue_eq, ⟨[], rfl, rfl⟩, h.hooks.never_panic⟩
  trap_eq := h.trap_eq

theorem Mirrors.len_eq (h : Mirrors before q phases s) : q.len = s.slots.length := by
  rw [← h.contents_eq]
  exact h.within.ringSound.length_contents.symm

/-- A call that holds nothing finds a free permit for every free slot. -/
theorem Mirrors.permits (h : Mirrors before q spot.phases s) (hs : spot.burden = .nothing) :
    q.free.permits + s.slots.length = q.capacity ∧ q.filled.permits = s.slots.length := by
  rw [← h.len_eq]
  refine h.exact.permits fun p hp => ?_
  cases spot with
  | opening => exact absurd hp (Multiset.notMem_zero p)
  | phase p' => rw [Multiset.mem_singleton.1 hp]; exact hs

section Moves

variable {o : Outcome α} {side : Side} {p : Phase α} {s₁ : Reference α}
  {P : Stop α → Reference α → Prop}

theorem Moves.through (h : Moves before q spot (.finish o) s') :
    Yields before q spot (.through o) s' := by
  obtain ⟨q₁, hsec, hm, hcap⟩ := h
  exact ⟨q₁, _, _, .through hsec, hm, hcap, rfl, rfl⟩

theorem Moves.waits (h : Moves before q spot (.wait side p) s') :
    Yields before q spot (.waits side p) s' := by
  obtain ⟨q₁, hsec, hm, hcap⟩ := h
  exact ⟨q₁, _, _, .waits hsec, hm, hcap, rfl, rfl⟩

theorem Moves.go (h : Moves before q spot (.go p) s₁)
    (hnext : ∀ q₁, Mirrors before q₁ (Spot.phase p).phases s₁ → q₁.capacity = q.capacity →
      Ends before q₁ (.phase p) P) : Ends before q spot P := by
  obtain ⟨q₁, hsec, hm, hcap⟩ := h
  obtain ⟨q', stop, s', hr, hm', hcap', hP⟩ := hnext q₁ hm hcap
  exact ⟨q', stop, s', .go hsec hr, hm', hcap'.trans hcap, hP⟩

/-- Nobody else is there to be woken. -/
theorem Moves.signal (h : Moves before q spot (.signal side p) s₁)
    (hnext : ∀ q₁, Mirrors before q₁ (Spot.phase p).phases s₁ → q₁.capacity = q.capacity →
      Ends before q₁ (.phase p) P) : Ends before q spot P := by
  obtain ⟨q₁, hsec, hm, hcap⟩ := h
  obtain ⟨q', stop, s', hr, hm', hcap', hP⟩ := hnext q₁ hm hcap
  exact ⟨q', stop, s', .signal hsec hr, hm', hcap'.trans hcap, hP⟩

theorem Yields.answers {stop : Stop α} {answer : Outcome α → Answer α}
    {result : Reference α × Option (Answer α)} (h : Yields before q spot stop s')
    (hresult : result = (s', stop.answer? answer)) : AnswersAs before q spot answer result := by
  obtain ⟨q', stop, s', hr, hm, hcap, rfl, rfl⟩ := h
  exact ⟨q', stop, s', hr, hm, hcap, hresult⟩

end Moves

end Queue

end BoundedQueue
