import BoundedQueue.Proofs.Queue.Faults
import BoundedQueue.Proofs.Session.Accounts

/-!
# What never happens

Hooks and loggers may panic at any time, locks may be poisoned, and a clearing may stop half-way.
Whatever they do, the queue does not come to harm by itself.

* `Sturdy` lists what holds in every world of every run: no slot is promised twice, no permit is
  counted beyond the capacity, no index leaves the ring.
* `Answers` says that an operation is answered in a step.  `Answers.cases` leads an answer back to
  the outcome of a call; an operation that makes no call reports neither a failure nor a panic.
* `panic_cases` says that a panic is that of a hook or of the logger, in this very step.
* A failure of the queue's own making is that the ring is full, or empty, although there was a
  permit.  `filled_after` says that filled permits stand for filled slots unless the run is
  `Stranded`: a clearing has popped entries and then stopped half-way (`HalfCleared`).

`safe_after` says what an operation is never answered: a panic for which no hook and no logger is to
blame, or that the ring is full; and that the ring is empty only if a clearing stopped half-way
before.
-/

set_option autoImplicit false

namespace BoundedQueue

variable {α : Type}

namespace World

/-! ## What holds in every world -/

/-- What holds of a queue with `capacity` slots, whatever fails or panics. -/
structure Sturdy (w : Traffic α) (capacity : Nat) : Prop where
  /-- No slot is promised twice. -/
  books_le : w.shared.queue.free.permits + w.shared.queue.len + carried .freePermit w.phases +
    carried .vacantSlot w.phases ≤ capacity
  permits_le : ∀ side, (w.shared.queue.semaphore side).permits ≤ capacity
  sound : ∀ side, (w.shared.queue.semaphore side).poisoned = false
  size_eq : w.shared.queue.ring.slots.size = capacity
  head_lt : w.shared.queue.ring.head < w.shared.queue.ring.slots.size
  tail_lt : w.shared.queue.ring.tail < w.shared.queue.ring.slots.size
  /-- A permit is taken where there is one. -/
  take : ∀ side rest, (w.shared.queue.semaphore side).take = .granted rest →
    rest.permits + 1 = (w.shared.queue.semaphore side).permits
  /-- A call that returns a permit can do so, and the count does not overflow. -/
  give : ∀ p ∈ w.phases, ∀ side, p.returns = some side →
    ∃ after, (w.shared.queue.semaphore side).give = .given after ∧
      after.permits = (w.shared.queue.semaphore side).permits + 1 ∧ after.permits ≤ capacity
  /-- A call that pushes an entry finds a slot. -/
  push : ∀ errand, .store errand ∈ w.phases → ∃ ring,
    w.shared.queue.ring.push? errand.entry = some ring ∧
      ring.len = w.shared.queue.ring.len + 1 ∧ ring.len ≤ capacity
  /-- An entry that was seen can be popped. -/
  pop : ∀ entry, w.shared.queue.ring.peek? = some entry → ∃ ring,
    w.shared.queue.ring.pop? = some (entry, ring) ∧ ring.len + 1 = w.shared.queue.ring.len
  producers_le : w.shared.queue.producers ≤ w.shared.queue.registrations

/-- A call in progress is one of the phases. -/
theorem exists_phases_eq {w : Traffic α} {p : Phase α} (hp : p ∈ w.phases) :
    ∃ others, w.phases = (Spot.phase p).phases + others := by
  obtain ⟨others, h⟩ := Multiset.exists_cons_of_mem hp
  exact ⟨others, h.trans (Multiset.singleton_add p others).symm⟩

theorem sturdy_of_within {w : Traffic α} (h : w.shared.queue.Within w.phases)
    (hproducers : w.shared.queue.producers ≤ w.shared.queue.registrations) :
    w.Sturdy w.shared.queue.capacity where
  books_le := h.freeSide_le
  permits_le := h.permits_le
  sound side := by
    cases side with
    | free => exact h.freeSound
    | filled => exact h.filledSound
  size_eq := h.capacity_eq
  head_lt := h.ringSound.head_lt
  tail_lt := by
    rw [h.ringSound.tail_eq]
    exact Nat.mod_lt _ (Nat.zero_lt_of_lt h.ringSound.head_lt)
  take _ _ := Queue.permits_of_take
  give p hp side hside := by
    obtain ⟨others, heq⟩ := exists_phases_eq hp
    rw [heq] at h
    exact h.exists_of_returns hside
  push errand hp := by
    obtain ⟨others, heq⟩ := exists_phases_eq hp
    rw [heq] at h
    exact h.exists_of_store
  pop _ := Queue.exists_of_peek h.ringSound
  producers_le := hproducers

end World

/-! ## Answers that report a failure or a panic -/

namespace Session

variable {s : Session α} {o : Outcome α} {purpose : Purpose α} {a : Answer α}

/-- An operation reports the failure of its last call. -/
theorem outcome_of_error {e : Error} (h : (s.conclude o purpose).2 = .finish a)
    (he : a.error? = some e) : o = .failed e := by
  cases purpose with
  | plain | attempt | producer | send =>
    cases o <;> cases h <;> cases he
    rfl
  | drop =>
    cases o with
    | failed e' =>
      rw [conclude, concludeDrop] at h
      cases h
      split at he <;> cases he
    | _ => cases h; cases he
  | next =>
    cases o <;> cases h <;> cases he
    rfl
  | gather left got =>
    cases o with
    | item b =>
      cases left with
      | none => cases h
      | some n =>
        rw [conclude, concludeGather] at h
        split at h
        · cases h; cases he
        · cases h
    | failed e' => cases h; cases he; rfl
    | done | drained | full | panicked => cases h; cases he

/-- An operation panics when its last call does, or when the logger does at the failure of a guard
that was dropped. -/
theorem outcome_of_panicked {text : String}
    (h : (s.conclude o purpose).2 = .finish (.panicked text)) :
    o = .panicked text ∨ text = Logbook.panicText ∧ s.queue.log.trap ≠ none ∧
      (s.conclude o purpose).1.queue.log.trap = none := by
  cases purpose with
  | plain | attempt | producer | send | next =>
    cases o <;> cases h
    exact .inl rfl
  | drop =>
    cases o with
    | failed e =>
      by_cases hs : s.queue.log.springs (.dropFailed e) = true
      · obtain ⟨hset, hsprung⟩ := Queue.trap_of_springs hs
        simp only [conclude, concludeDrop, if_pos hs, answer] at h ⊢
        cases h
        exact .inr ⟨rfl, hset, hsprung⟩
      · simp only [conclude, concludeDrop, if_neg hs, answer] at h
        cases h
    | panicked => cases h; exact .inl rfl
    | done | item | drained | full => cases h
  | gather left got =>
    cases o with
    | item b =>
      cases left with
      | none => cases h
      | some n =>
        rw [conclude, concludeGather] at h
        split at h <;> cases h
    | panicked => cases h; exact .inl rfl
    | done | drained | full | failed => cases h

/-- Nothing that follows from a call sets a trap. -/
theorem trap_conclude (h : s.queue.log.trap = none) (o : Outcome α) (purpose : Purpose α) :
    (s.conclude o purpose).1.queue.log.trap = none := by
  cases purpose with
  | plain | attempt | send => exact h
  | producer | next => cases o <;> exact h
  | drop =>
    cases o with
    | failed e => simp [conclude, concludeDrop, answer, Queue.record, Logbook.write, h]
    | _ => exact h
  | gather left got =>
    cases o with
    | item b =>
      cases left with
      | none => exact h
      | some n =>
        rw [conclude, concludeGather]
        split <;> exact h
    | _ => exact h

end Session

namespace World

variable {w : Traffic α} {t : Int} {e : Engagement α} {op : Operation α} {a : Answer α}
  {text : String}

/-- Operation `op` is answered with `a` in the next step of task `t`. -/
def Answers (w : Traffic α) (t : Int) (op : Operation α) (a : Answer α) : Prop :=
  (w.advance Session.machine t).1.events = ⟨t, .completed op a⟩ :: w.events

/-- A hook panics in the next step of task `t`. -/
def HookPanics (w : Traffic α) (t : Int) (text : String) : Prop :=
  ∃ stage entry, (w.advance Session.machine t).1.shared.queue.history =
    .consulted stage entry (.panic text) :: w.shared.queue.history

/-- The logger panics in the next step of task `t`: the trap is set before, and has sprung after. -/
def LoggerPanics (w : Traffic α) (t : Int) (text : String) : Prop :=
  text = Logbook.panicText ∧ w.shared.queue.log.trap ≠ none ∧
    (w.advance Session.machine t).1.shared.queue.log.trap = none

/-- Who is answered without a section was told to do what takes none. -/
theorem skips_of_answers (he : w.engagement? t = none) (h : w.Answers t op a) :
    w.shared.Skips op (w.advance Session.machine t).1.shared a := by
  have hsteps := sidesteps he
  rw [Answers] at h
  generalize w.advance Session.machine t = step at h hsteps
  cases hsteps with
  | rests | yields => exact absurd h.symm (List.cons_ne_self _ _)
  | goesOn | misreads => cases h
  | skips _ hskips => cases h; exact hskips

/-- Who is answered after a section is told what follows from the outcome of the call. -/
theorem concludes_of_answers (he : w.engagement? t = some e) (h : w.Answers t op a) :
    e.op = op ∧ ∃ s o, (w.shared.queue.sectionAt e.spot).2 = .finish o ∧
      (Session.conclude s o e.purpose).2 = .finish a := by
  obtain ⟨x, new, hx, -, hnew⟩ := (stride_advance he Prod.mk.eta.symm).1.landing
  have hmap : new.map (Event.mk t) = [⟨t, .completed op a⟩] :=
    List.append_cancel_right (hnew.symm.trans h)
  generalize (w.shared.queue.sectionAt e.spot).2 = move at hx
  cases hx with
  | stay | again => cases hmap
  | finish hconclude => cases hmap; exact ⟨rfl, _, _, rfl, hconclude⟩

/-- An answer reports facts, or is what follows from the outcome of a call. -/
theorem Answers.cases (h : w.Answers t op a) : a.isIdle = true ∨ ∃ e o handles,
    w.engagement? t = some e ∧ (w.shared.queue.sectionAt e.spot).2 = .finish o ∧
      (Session.conclude ⟨(w.shared.queue.sectionAt e.spot).1, handles⟩ o e.purpose).2 =
        .finish a ∧
      (w.advance Session.machine t).1.shared =
        (Session.conclude ⟨(w.shared.queue.sectionAt e.spot).1, handles⟩ o e.purpose).1 := by
  rcases he : w.engagement? t with - | e
  · exact .inl (skips_of_answers he h).isIdle
  · obtain ⟨handles, hadv⟩ := advance_of_engagement he
    rw [Answers, hadv] at h
    rw [hadv]
    rcases hsec : w.shared.queue.sectionAt e.spot with ⟨q', move⟩
    rw [hsec] at h
    cases move with
    | go | wait | signal => exact absurd h.symm (List.cons_ne_self _ _)
    | finish o =>
      refine .inr ⟨e, o, handles, rfl, by rw [hsec], ?_⟩
      rw [hsec]
      rw [Session.enter] at h ⊢
      rcases hc : Session.conclude ⟨q', handles⟩ o e.purpose with ⟨s', move'⟩
      rw [hc] at h
      cases move' with
      | go | wait | signal => exact absurd h.symm (List.cons_ne_self _ _)
      | finish a' => cases h; exact ⟨rfl, rfl⟩

/-- The answer of a step can be read off the report that it adds. -/
theorem exists_answer {e? : Option Error}
    (hlen : (w.advance Session.machine t).1.events.length = w.events.length + 1)
    (hhead : ((w.advance Session.machine t).1.events.head?.bind fun x =>
      x.what.completed?.map fun y => (x.task, y.2.error?)) = some (t, e?)) :
    ∃ op a, w.Answers t op a ∧ a.error? = e? := by
  obtain ⟨new, hnew⟩ := happen_events Session.machine w (.advance t)
  rw [happen] at hnew
  rw [hnew, List.length_append] at hlen
  obtain ⟨⟨u, what⟩, rfl⟩ := List.length_eq_one_iff.1 (show new.length = 1 by omega)
  rw [hnew] at hhead
  cases what with
  | completed op a => cases hhead; exact ⟨op, a, hnew, rfl⟩
  | yielded | unreadable | busy => cases hhead

/-- **An operation panics only because a hook or the logger does.** -/
theorem panic_cases (hw : w.Regular) (h : w.Answers t op (.panicked text)) :
    w.HookPanics t text ∨ w.LoggerPanics t text := by
  obtain hidle | ⟨e, o, handles, he, hsec, hconclude, hshared⟩ := h.cases
  · cases hidle
  · have hwork := hw.workable he
    rw [HookPanics, LoggerPanics, hshared]
    rcases Session.outcome_of_panicked hconclude with rfl | ⟨htext, hset, hsprung⟩
    · rcases Queue.panicked_cases hwork hsec with ⟨stage, entry, hnote⟩ | ⟨htext, hset, hsprung⟩
      · obtain ⟨log, hq⟩ := Session.conclude_queue
          ⟨(w.shared.queue.sectionAt e.spot).1, handles⟩ (.panicked text) e.purpose
        exact .inl ⟨stage, entry, by rw [hq]; exact hnote⟩
      · exact .inr ⟨htext, hset, Session.trap_conclude hsprung _ _⟩
    · exact .inr ⟨htext, Queue.trap_sectionAt hwork hset, hsprung⟩

/-! ## Failures of the queue's own making -/

/-- A clearing by task `t` empties the ring in its next step and stops at the producers lock, which
is poisoned. -/
structure HalfCleared (w : Traffic α) (t : Int) : Prop where
  clearing : ∃ e, w.engagement? t = some e ∧ e.op = .clear
  stopped : w.shared.queue.producersPoisoned = true
  emptied : (w.advance Session.machine t).1.shared.queue.history =
    .emptied :: w.shared.queue.history
  len_eq : (w.advance Session.machine t).1.shared.queue.len = 0

/-- A clearing of the run has popped entries and stopped half-way, so that the permits for them no
longer stand for anything. -/
def Stranded (w₀ : Traffic α) (hs : List (Happening (Operation α))) : Prop :=
  ∃ later t earlier, hs = later ++ .advance t :: earlier ∧
    (w₀.after Session.machine earlier).HalfCleared t ∧
    0 < (w₀.after Session.machine earlier).shared.queue.len

/-- No call in progress is about to end with a failure of the queue's own making. -/
def Sane (w : Traffic α) : Prop := ∀ p ∈ w.phases, ∀ e, p.error? = some e → e.isSelfMade = false

theorem Regular.sane_advance (hw : w.Regular) (h : w.Sane) (t : Int) :
    (w.advance Session.machine t).1.Sane := by
  refine hw.keeps (I := fun _ phases => ∀ p ∈ phases, ∀ e, p.error? = some e →
    e.isSelfMade = false) h (fun _ _ _ => id) ?_ ?_ ?_
  · intro q phases h p hp e he
    rcases Multiset.mem_add.1 hp with hp | hp
    · rw [Multiset.mem_singleton.1 hp] at he
      cases he
    · exact h p hp e he
  · exact fun q b p phases others h p hp => h p (Multiset.mem_add.2 (.inr hp))
  · intro e r q' move others he hphases halone hp p hmem error herror
    rcases Multiset.mem_add.1 hmem with hmem | hmem
    · by_contra hself
      rw [← Move.error?_of_mem hmem] at herror
      rcases hp.selfMade_cases herror (by simpa using hself) with hspot | ⟨-, -, -, o, rfl⟩
      · rcases hsp : e.spot with c | p'
        · rw [hsp] at hspot; cases hspot
        · rw [hsp] at hphases hspot
          refine hself (h p' ?_ error hspot)
          rw [hphases]
          exact Multiset.mem_add.2 (.inl (Multiset.mem_singleton_self _))
      · exact absurd hmem (Multiset.notMem_zero p)
    · exact h p (hphases ▸ Multiset.mem_add.2 (.inr hmem)) error herror

/-- Filled permits and filled slots stay in step, unless a clearing stops half-way.  One that finds
the ring empty does no harm even then. -/
theorem Regular.filled_advance (hw : w.Regular)
    (h : w.shared.queue.filledSide w.phases ≤ w.shared.queue.len) (t : Int) :
    let w' := (w.advance Session.machine t).1
    w'.shared.queue.filledSide w'.phases ≤ w'.shared.queue.len ∨
      w.HalfCleared t ∧ 0 < w.shared.queue.len := by
  intro w'
  have hkept := hw.keeps (t := t) (I := fun q phases => q.filledSide phases ≤ q.len ∨
    (∃ e, w.engagement? t = some e ∧ e.op = .clear) ∧ w.shared.queue.producersPoisoned = true ∧
      q.history = .emptied :: w.shared.queue.history ∧ q.len = 0 ∧ 0 < w.shared.queue.len)
    (.inl h) (fun _ _ _ => id) ?_ ?_ ?_
  · exact hkept.imp_right fun ⟨hop, hstopped, hhistory, hlen, hpos⟩ =>
      ⟨⟨hop, hstopped, hhistory, hlen⟩, hpos⟩
  · intro q phases hI
    rw [(q.sides_askFilled phases).2.1]
    exact hI
  · intro q b p phases others hI
    refine hI.imp_left fun hle => ?_
    rw [add_comm, Queue.filledSide_add] at hle
    simp only [Queue.filledSide, Queue.len] at *
    omega
  · intro e r q' move others he hphases halone hp
    rw [hphases] at h
    refine (hp.filled_le_or_halfway hw.within.ringSound halone h).imp_right ?_
    rintro ⟨hspot, hstopped, hhistory, hlen, hpos⟩
    exact ⟨⟨e, he, (hw.op_eq_clear_iff he).2 hspot⟩, hstopped, hhistory, hlen, hpos⟩

/-- Where filled permits stand for filled slots, an operation is never told that the queue is at
odds with itself; where they do not, only that the ring is empty. -/
theorem selfMade_of_answer (hw : w.Regular) (hsane : w.Sane) (h : w.Answers t op a) {e : Error}
    (he : a.error? = some e) (hself : e.isSelfMade = true) :
    e = .ringEmpty ∧ ¬w.shared.queue.filledSide w.phases ≤ w.shared.queue.len := by
  obtain hidle | ⟨e', o, handles, hengaged, hsec, hconclude, -⟩ := h.cases
  · rw [(Answer.nothing_of_isIdle hidle).2] at he
    cases he
  · obtain rfl := Session.outcome_of_error hconclude he
    obtain ⟨r, q', move, hp, hq⟩ := Queue.exists_passage (hw.workable hengaged)
    have hmove : move = .finish (.failed e) := by
      rw [hq] at hsec
      rcases q'.remarked_move move r with ⟨hm, -⟩ | ⟨hm, -⟩
      · exact hm.symm.trans hsec
      · cases hm.symm.trans hsec
    have hphases := phases_of_engagement hw.sorted hengaged
    rcases hp.selfMade_cases (by rw [hmove]; rfl) hself with hspot | ⟨rfl, hspot, hpeek, -⟩
    · rcases hsp : e'.spot with c | p
      · rw [hsp] at hspot; cases hspot
      · rw [hsp] at hspot hphases
        have hmem : p ∈ w.phases :=
          hphases ▸ Multiset.mem_add.2 (.inl (Multiset.mem_singleton_self _))
        cases hself.symm.trans (hsane p hmem e hspot)
    · refine ⟨rfl, fun hle => ?_⟩
      have hlen : w.shared.queue.len = 0 := hw.within.ringSound.peek?_eq_none_iff.1 hpeek
      rw [hphases, hspot, Queue.filledSide_add] at hle
      simp only [Queue.filledSide, Spot.phases, carried_singleton, Phase.burden, if_true] at hle
      omega

section Fresh

variable {capacity : Nat} (onEnqueue onDequeue : Option (Hook α)) (log : Logbook)

theorem sane_after (hpos : 0 < capacity) (hmax : capacity ≤ Semaphore.maxPermits)
    (hs : List (Happening (Operation α))) :
    ((Traffic.fresh capacity onEnqueue onDequeue log).after Session.machine hs).Sane := by
  induction hs with
  | nil => exact fun p hp => absurd hp (Multiset.notMem_zero p)
  | cons x hs ih =>
    have hw := regular_after onEnqueue onDequeue log hpos hmax hs
    rw [after_cons]
    cases x with
    | advance t => exact hw.sane_advance ih t
    | handOut a => rw [Sane, happen, (quiet_handOut _ a).phases_eq hw.sorted]; exact ih

theorem producers_le_after (hpos : 0 < capacity) (hmax : capacity ≤ Semaphore.maxPermits)
    (hs : List (Happening (Operation α))) :
    let w := (Traffic.fresh capacity onEnqueue onDequeue log).after Session.machine hs
    w.shared.queue.capacity = capacity ∧
      w.shared.queue.producers ≤ w.shared.queue.registrations := by
  induction hs with
  | nil => exact ⟨rfl, Nat.le_refl _⟩
  | cons x hs ih =>
    have hw := regular_after onEnqueue onDequeue log hpos hmax hs
    rw [after_cons]
    cases x with
    | handOut a =>
      simp only [happen, handOut_shared]
      exact ih
    | advance t =>
      refine hw.keeps (I := fun q _ => q.capacity = capacity ∧ q.producers ≤ q.registrations) ih
        (fun _ _ _ => id) (fun _ _ => id) (fun _ _ _ _ _ => id) ?_
      intro e r q' move others he hphases halone hp
      have hle := hp.producers_le
      exact ⟨hp.kept.capacity_eq.trans ih.1, by omega⟩

/-- Filled permits stand for filled slots in every run in which no clearing has popped entries and
stopped half-way. -/
theorem filled_after (hpos : 0 < capacity) (hmax : capacity ≤ Semaphore.maxPermits)
    (hs : List (Happening (Operation α))) :
    let w₀ := Traffic.fresh capacity onEnqueue onDequeue log
    let w := w₀.after Session.machine hs
    w.shared.queue.filledSide w.phases ≤ w.shared.queue.len ∨ w₀.Stranded hs := by
  intro w₀ w
  induction hs with
  | nil => exact .inl (Nat.le_refl _)
  | cons x hs ih =>
    have hw : (w₀.after Session.machine hs).Regular :=
      regular_after onEnqueue onDequeue log hpos hmax hs
    rcases ih with hle | ⟨later, t, earlier, rfl, hhalf⟩
    · cases x with
      | handOut a =>
        refine .inl ?_
        simp only [w, after_cons, happen, handOut_shared, (quiet_handOut _ a).phases_eq hw.sorted]
        exact hle
      | advance t =>
        exact (hw.filled_advance hle t).imp_right fun hhalf => ⟨[], t, hs, rfl, hhalf⟩
    · exact .inr ⟨x :: later, t, earlier, rfl, hhalf⟩

/-- **The queue does not come to harm by itself.**  Whatever hooks and loggers do, whichever locks
are poisoned and however far clearings get: every world is sturdy, an operation panics only because
a hook or the logger does in that very step, none is told that the ring is full, and none that the
ring is empty unless a clearing stopped half-way before. -/
theorem safe_after (hpos : 0 < capacity) (hmax : capacity ≤ Semaphore.maxPermits)
    (hs : List (Happening (Operation α)))
    (hregistrations : ((Traffic.fresh capacity onEnqueue onDequeue log).after Session.machine
      hs).shared.queue.registrations < 2 ^ 64) :
    let w₀ := Traffic.fresh capacity onEnqueue onDequeue log
    let w := w₀.after Session.machine hs
    w.Sturdy capacity ∧ w.shared.queue.producers < 2 ^ 64 ∧
      ∀ t op a, w.Answers t op a →
        (∀ text, a = .panicked text → w.HookPanics t text ∨ w.LoggerPanics t text) ∧
        a.error? ≠ some .ringFull ∧
        (a.error? = some .ringEmpty → ∃ later u earlier, hs = later ++ .advance u :: earlier ∧
          (w₀.after Session.machine earlier).HalfCleared u) := by
  intro w₀ w
  have hw : w.Regular := regular_after onEnqueue onDequeue log hpos hmax hs
  have hsane : w.Sane := sane_after onEnqueue onDequeue log hpos hmax hs
  have hfilled := filled_after onEnqueue onDequeue log hpos hmax hs
  obtain ⟨hcap, hproducers⟩ : w.shared.queue.capacity = capacity ∧
      w.shared.queue.producers ≤ w.shared.queue.registrations :=
    producers_le_after onEnqueue onDequeue log hpos hmax hs
  refine ⟨hcap ▸ sturdy_of_within hw.within hproducers,
    Nat.lt_of_le_of_lt hproducers hregistrations, fun t op a ha => ⟨?_, fun he => ?_, fun he => ?_⟩⟩
  · rintro text rfl
    exact panic_cases hw ha
  · exact absurd (selfMade_of_answer hw hsane ha he rfl).1 (by decide)
  · obtain ⟨later, u, earlier, heq, hhalf, -⟩ :=
      hfilled.resolve_left (selfMade_of_answer hw hsane ha he rfl).2
    exact ⟨later, u, earlier, heq, hhalf⟩

end Fresh

/-- The logger panics at a registration; later a clearing stops half-way, and a consumer finds that
its permit stands for nothing. -/
def stranding : List (Happening (Operation Nat)) :=
  [.advance 1, .advance 1, .advance 1, .advance 1, .advance 1, .advance 1, .advance 1, .advance 1,
    .handOut ⟨1, [.perform (.trap ""), .perform .register, .perform (.enqueue 7), .perform .clear,
      .perform .dequeue]⟩]

theorem safe_after_stranding :
    (0 < 1 ∧ 1 ≤ Semaphore.maxPermits ∧
      ((Traffic.fresh 1 none none (.blank (some .trace))).after Session.machine
        stranding).shared.queue.registrations < 2 ^ 64) ∧
    (∃ op a, ((Traffic.fresh 1 none none (.blank (some .trace))).after Session.machine
        stranding).Answers 1 op a ∧ a.error? = some .ringEmpty) ∧
    ∃ later u earlier, stranding = later ++ .advance u :: earlier ∧
      ((Traffic.fresh 1 none none (.blank (some .trace))).after Session.machine
        earlier).HalfCleared u := by
  have hmax : 1 ≤ Semaphore.maxPermits := by decide
  have hregistrations : ((Traffic.fresh 1 none none (.blank (some .trace))).after Session.machine
      stranding).shared.queue.registrations < 2 ^ 64 := by decide +kernel
  obtain ⟨op, a, ha, he⟩ : ∃ op a, ((Traffic.fresh 1 none none (.blank (some .trace))).after
      Session.machine stranding).Answers 1 op a ∧ a.error? = some .ringEmpty :=
    exists_answer (by decide +kernel) (by decide +kernel)
  obtain ⟨-, -, hanswers⟩ := safe_after none none (.blank (some .trace)) Nat.one_pos hmax stranding
    hregistrations
  exact ⟨⟨Nat.one_pos, hmax, hregistrations⟩, ⟨op, a, ha, he⟩, (hanswers 1 op a ha).2.2 he⟩

end World

end BoundedQueue
