import BoundedQueue.Proofs.Queue.Poison
import BoundedQueue.Proofs.Session.Finality
import BoundedQueue.Proofs.Session.Leaks

/-!
# Runs after a lock was poisoned

Nothing undoes the poisoning of a lock.  `BufferGone` says what this means for the rest of a run
when it is the buffer lock, `ProducersGone` when it is the producers lock, and `poison_lasts` that
both hold, however the run goes on.

* What a poisoned lock guards is frozen: the ring and the hooks (`Regular.frozen_after`), or the
  count of producers (`Regular.producers_frozen_after`).
* A call that comes to the poisoned buffer lock is told so in this step, or in the next one that its
  task takes: `Regular.turned_away`.
* A call that is past the lock when it is poisoned ends as it would have.  Of those that have yet to
  come to it, `BeganSince` speaks: the phases at which they can stand are barred, and none of their
  sections leads past the lock (`Regular.barred_after`).  So none of them answers that all went
  well; `Operation.Balks` says what each can be answered.
* Behind the poisoned producers lock nobody comes upon the end of input any more.  Whoever is told
  later that there is no item came upon it before: `Regular.drains_before`.

The logger may panic wherever something is reported, and then the call ends with its panic instead.
`EndsWith` and `LoggerEnds` keep this case out of the statements.
-/

set_option autoImplicit false

namespace BoundedQueue

variable {α : Type}

/-- What an operation can be answered that begins when the buffer lock refuses service, unless the
logger panics; it is about the operations that are a single call at this lock. -/
def Operation.Balks (op : Operation α) (a : Answer α) : Prop :=
  match op with
  | .enqueue _ | .dequeue | .install _ _ => a = .failed Lock.buffer.error
  | .tryEnqueue b => a = .refused (.full b) ∨ a = .refused (.failed Lock.buffer.error)
  | .clear => a = .failed Lock.buffer.error ∨ a = .inUse
  | _ => True

/-- An operation that makes no call is none that needs the buffer lock, or is a clearing that is
told that the queue is in use. -/
theorem Session.Skips.balks {s s' : Session α} {op : Operation α} {a : Answer α}
    (h : s.Skips op s' a) : op.Balks a := by
  cases h with
  | inUse => exact .inr rfl
  | noHandle hname => cases op <;> trivial
  | _ => trivial

/-- What follows from a call leaves the queue alone, but for the record that a dropped guard could
not deregister. -/
theorem Session.queue_conclude (s : Session α) (o : Outcome α) (purpose : Purpose α) :
    (s.conclude o purpose).1.queue = s.queue ∨
      ∃ err, o = .failed err ∧
        (s.conclude o purpose).1.queue = s.queue.record (.dropFailed err) := by
  cases purpose with
  | plain | attempt | send => exact .inl rfl
  | producer | next => cases o <;> exact .inl rfl
  | drop =>
    cases o with
    | failed err => exact .inr ⟨err, rfl, rfl⟩
    | _ => exact .inl rfl
  | gather left got =>
    cases o with
    | item b =>
      cases left with
      | none => exact .inl rfl
      | some n =>
        rw [conclude, concludeGather]
        split <;> exact .inl rfl
    | _ => exact .inl rfl

namespace World

variable {w : Traffic α} {t : Int} {e : Engagement α} {op : Operation α} {o : Outcome α}

/-- A run leads from regular worlds to regular worlds. -/
theorem Regular.after (hw : w.Regular) (hs : List (Happening (Operation α))) :
    (w.after Session.machine hs).Regular :=
  after_induction hw (fun _ x hv => hv.happen x) hs

/-! ## How a call ends in the next step -/

/-- An outcome is that the logger panics in the next step of task `t`. -/
def LoggerEnds (w : Traffic α) (t : Int) (o : Outcome α) : Prop :=
  ∃ text, o = .panicked text ∧ w.LoggerPanics t text

/-- In the next step of task `t` a call of its operation `op` ends with `o`, unless the logger
panics. -/
def EndsWith (w : Traffic α) (t : Int) (op : Operation α) (o : Outcome α) : Prop :=
  ∃ o', w.ending? t = some (.ended op o') ∧ (o' = o ∨ w.LoggerEnds t o')

/-- The queue after the section of a task is as the section left it, but for the record that a
dropped guard could not deregister. -/
theorem queue_advance (he : w.engagement? t = some e) :
    (w.advance Session.machine t).1.shared.queue = (w.shared.queue.sectionAt e.spot).1 ∨
      ∃ err, (w.shared.queue.sectionAt e.spot).2 = .finish (.failed err) ∧
        (w.advance Session.machine t).1.shared.queue =
          (w.shared.queue.sectionAt e.spot).1.record (.dropFailed err) := by
  obtain ⟨handles, hadv⟩ := advance_of_engagement he
  rw [hadv, settleMove_shared]
  generalize w.shared.queue.sectionAt e.spot = s
  obtain ⟨q, move⟩ := s
  cases move with
  | go | wait | signal => exact .inl rfl
  | finish o =>
    rcases Session.queue_conclude ⟨q, handles⟩ o e.purpose with hq | ⟨err, rfl, hq⟩
    · exact .inl hq
    · exact .inr ⟨err, rfl, hq⟩

theorem exists_log (he : w.engagement? t = some e) :
    ∃ log, (w.advance Session.machine t).1.shared.queue =
      { (w.shared.queue.sectionAt e.spot).1 with log := log } := by
  rcases queue_advance he with hq | ⟨err, -, hq⟩
  · exact ⟨_, hq⟩
  · exact ⟨_, hq⟩

/-- A trap that is not set after a section is not set after the step. -/
theorem trap_advance (he : w.engagement? t = some e)
    (hsec : (w.shared.queue.sectionAt e.spot).1.log.trap = none) :
    (w.advance Session.machine t).1.shared.queue.log.trap = none := by
  rcases queue_advance he with hq | ⟨err, -, hq⟩
  · rw [hq, hsec]
  · simp [hq, Queue.record, Logbook.write, hsec]

/-- A section leaves its call as a passage does, or the logger panics. -/
theorem Regular.section_cases (hw : w.Regular) (he : w.engagement? t = some e) :
    ∃ r q' move, w.shared.queue.Passage e.spot r q' move ∧
      ((w.shared.queue.sectionAt e.spot).2 = move ∨
        (w.shared.queue.sectionAt e.spot).2 = .finish (.panicked Logbook.panicText) ∧
          w.LoggerPanics t Logbook.panicText) := by
  obtain ⟨r, q', move, hp, hsec⟩ := Queue.exists_passage (hw.workable he)
  refine ⟨r, q', move, hp, ?_⟩
  rcases q'.remarked_move move r with ⟨hm, -⟩ | ⟨hm, hset, hsprung⟩
  · exact .inl (hsec ▸ hm)
  · exact .inr ⟨hsec ▸ hm, rfl, hp.log_eq ▸ hset, trap_advance he (hsec ▸ hsprung)⟩

theorem ending?_eq_some (he : w.engagement? t = some e)
    (ho : (w.shared.queue.sectionAt e.spot).2 = .finish o) :
    w.ending? t = some (.ended e.op o) := by
  rw [ending?, he, Option.bind_some, ho]

/-- A call that can only end in one way does so. -/
theorem Regular.endsWith (hw : w.Regular) (he : w.engagement? t = some e)
    (h : ∀ r q' move, w.shared.queue.Passage e.spot r q' move → move = .finish o) :
    w.EndsWith t e.op o := by
  obtain ⟨r, q', move, hp, hm | ⟨hm, hpanics⟩⟩ := hw.section_cases he
  · exact ⟨o, ending?_eq_some he (hm.trans (h _ _ _ hp)), .inl rfl⟩
  · exact ⟨_, ending?_eq_some he hm, .inr ⟨_, rfl, hpanics⟩⟩

/-! ## The buffer lock -/

theorem Regular.frozen_happen (hw : w.Regular) (hb : w.shared.queue.bufferPoisoned = true)
    (x : Happening (Operation α)) :
    Queue.Frozen w.shared.queue (w.happen Session.machine x).shared.queue := by
  cases x with
  | handOut a => rw [World.happen, handOut_shared]; exact .refl hb
  | advance t =>
    rw [World.happen]
    rcases he : w.engagement? t with - | e
    · obtain ⟨log, hq⟩ := (quiet_advance he).1.queue_eq
      rw [hq]
      exact ⟨hb, rfl, fun stage => by cases stage <;> rfl, rfl⟩
    · obtain ⟨log, hq⟩ := exists_log he
      obtain ⟨hpoisoned, hring, hhooks, hshown⟩ := Queue.frozen_sectionAt (hw.workable he) hb
      rw [hq]
      exact ⟨hpoisoned, hring, fun stage => by rw [← hhooks stage]; cases stage <;> rfl, hshown⟩

/-- What the poisoned buffer lock guards stays as it is. -/
theorem Regular.frozen_after (hw : w.Regular) (hb : w.shared.queue.bufferPoisoned = true)
    (later : List (Happening (Operation α))) :
    Queue.Frozen w.shared.queue (w.after Session.machine later).shared.queue :=
  (after_induction (P := fun v => v.Regular ∧ Queue.Frozen w.shared.queue v.shared.queue)
    ⟨hw, .refl hb⟩
    (fun _ x hv => ⟨hv.1.happen x, hv.2.trans (hv.1.frozen_happen hv.2.poisoned x)⟩) later).2

/-! ### Calls that come to the lock -/

/-- A task that is inside an operation stays where it is while only others take steps. -/
theorem get_after_of_inside (h : (w.tasks.get t).isInside = true)
    {next : List (Happening (Operation α))} (hnext : .advance t ∉ next) :
    (w.after Session.machine next).tasks.get t = w.tasks.get t := by
  induction next with
  | nil => rfl
  | cons x next ih =>
    have ih := ih fun hm => hnext (List.mem_cons_of_mem _ hm)
    rw [after_cons, ← ih]
    cases x with
    | advance u =>
      refine advance_get_of_ne _ _ _ fun htu => hnext ?_
      rw [htu]
      exact List.mem_cons_self
    | handOut a =>
      rcases (quiet_handOut (w.after Session.machine next) a).get_cases t with heq | ⟨hout, -⟩
      · exact heq
      · rw [ih, h] at hout
        cases hout

/-- A call that is to settle with a failure ends with it in the next step of its task. -/
theorem Regular.endsWith_of_settle (hw : w.Regular) {purpose : Purpose α} {errand : Errand α}
    {err : Error} {todo : List (Instruction (Operation α))}
    (h : w.tasks.get t = ⟨.inside op ⟨purpose, .settle errand (some err)⟩, todo⟩) :
    w.EndsWith t op (.failed err) :=
  hw.endsWith (e := ⟨op, purpose, .phase (.settle errand (some err)), todo⟩)
    (by rw [engagement?, h]) fun _ _ _ hp => hp.of_settle

/-- A call that comes to the poisoned buffer lock is told so in this step, or in the next step that
its task takes, however long that takes. -/
theorem Regular.turned_away (hw : w.Regular) (hb : w.shared.queue.bufferPoisoned = true)
    (he : w.engagement? t = some e) (hs : e.spot.locksBuffer = true) :
    w.EndsWith t e.op (.failed Lock.buffer.error) ∨
      ∀ next, .advance t ∉ next →
        ((w.advance Session.machine t).1.after Session.machine next).EndsWith t e.op
          (.failed Lock.buffer.error) := by
  obtain ⟨r, q', move, hp, hm | ⟨hm, hpanics⟩⟩ := hw.section_cases he
  · rcases hp.turned_away hb hs with rfl | ⟨errand, rfl⟩
    · exact .inl ⟨_, ending?_eq_some he hm, .inl rfl⟩
    · refine .inr fun next hnext => ?_
      obtain ⟨x, new, hx, ht, -⟩ := hw.exists_landing he
      rw [hm] at hx
      have hget : (w.advance Session.machine t).1.tasks.get t =
          ⟨.inside e.op ⟨e.purpose, .settle errand (some Lock.buffer.error)⟩, e.todo⟩ := by
        rw [ht, Roster.get_set_self]
        cases hx with
        | stay hphases => rw [Multiset.singleton_inj.1 hphases]
      have hinside : ((w.advance Session.machine t).1.tasks.get t).isInside = true := by
        rw [hget]; rfl
      exact ((hw.happen (.advance t)).after next).endsWith_of_settle
        ((get_after_of_inside hinside hnext).trans hget)
  · exact .inl ⟨_, ending?_eq_some he hm, .inr ⟨_, rfl, hpanics⟩⟩

/-! ### Calls that begin later -/

/-- The call of task `t` after a run that leads on from `w` began since, or had yet to come to the
buffer lock at `w`. -/
def BeganSince (w : Traffic α) (t : Int) (later : List (Happening (Operation α))) : Prop :=
  (∀ p ∈ (w.tasks.get t).phases, p.barred = true) ∨
    ∃ m ∈ marksOf t (w.chronicle later), m.endsCall = true

/-- A step in which no call ends leaves the call of its task short of the poisoned buffer lock. -/
theorem Regular.barred_advance (hw : w.Regular) (hb : w.shared.queue.bufferPoisoned = true)
    (h : (∀ m ∈ w.marks t, m.endsCall = false) → ∀ p ∈ (w.tasks.get t).phases, p.barred = true) :
    ∀ p ∈ ((w.advance Session.machine t).1.tasks.get t).phases, p.barred = true := by
  rcases he : w.engagement? t with - | e
  · have hout := (quiet_advance he).1.outside (outside_of_engagement he)
    rw [phases_of_outside hout]
    exact fun p hp => absurd hp (Multiset.notMem_zero p)
  · obtain ⟨q', move, notes, himprint⟩ := hw.imprint he
    obtain ⟨r, hp⟩ := himprint.passage
    rcases himprint.lands with ⟨hphases, hmarks⟩ | hnone | hask
    · rw [hphases]
      refine hp.barred hb ?_
      rw [← phases_get_of_engagement he]
      exact h fun m hm => (not_ends_of_noted (hmarks ▸ hm)).1
    · rw [hnone]
      exact fun p hp => absurd hp (Multiset.notMem_zero p)
    · rw [hask]
      exact fun p hp => Multiset.mem_singleton.1 hp ▸ rfl

/-- Whatever began since the buffer lock was poisoned stays short of it. -/
theorem Regular.barred_after (hw : w.Regular) (hb : w.shared.queue.bufferPoisoned = true)
    (later : List (Happening (Operation α))) (h : w.BeganSince t later) :
    ∀ p ∈ ((w.after Session.machine later).tasks.get t).phases, p.barred = true := by
  induction later with
  | nil =>
    rcases h with h | ⟨m, hm, -⟩
    · exact h
    · exact absurd hm List.not_mem_nil
  | cons x later ih =>
    rw [after_cons]
    cases x with
    | handOut a =>
      rcases (quiet_handOut (w.after Session.machine later) a).get_cases t with heq | ⟨-, hout⟩
      · rw [World.happen, heq]
        exact ih h
      · rw [World.happen, phases_of_outside hout]
        exact fun p hp => absurd hp (Multiset.notMem_zero p)
    | advance u =>
      rw [BeganSince, chronicle, marksOf_append] at h
      by_cases hu : u = t
      · subst hu
        rw [if_pos rfl] at h
        refine (hw.after later).barred_advance (hw.frozen_after hb later).poisoned fun hnone => ?_
        refine ih ?_
        rcases h with h | ⟨m, hm, hends⟩
        · exact .inl h
        · refine .inr ⟨m, (List.mem_append.1 hm).resolve_left fun hm => ?_, hends⟩
          cases (hnone m hm).symm.trans hends
      · rw [if_neg hu] at h
        rw [World.happen, advance_get_of_ne _ _ _ (Ne.symm hu)]
        exact ih h

/-- An operation answers what its call ends with. -/
theorem balks_of_conclude {s : Session α} {purpose : Purpose α} {a : Answer α} {c : Call α}
    (ha : (s.conclude o purpose).2 = .finish a) (hc : op.call? = some c) (hs : op.Serves purpose)
    (ho : c.Balks o) : op.Balks a := by
  cases hs with
  | enqueue | dequeue | install =>
    cases hc
    cases ho
    cases ha
    rfl
  | clear =>
    cases hc
    cases ho
    cases ha
    exact .inl rfl
  | tryEnqueue =>
    cases hc
    rcases ho with rfl | rfl
    · cases ha
      exact .inl rfl
    · cases ha
      exact .inr rfl
  | _ => trivial

/-- What a call ends with, its operation answers. -/
theorem Regular.balks_of_answers (hw : w.Regular) {a : Answer α} (ha : w.Answers t op a)
    (h : ∀ op o, w.ending? t = some (.ended op o) →
      ∃ c, op.call? = some c ∧ (c.Balks o ∨ w.LoggerEnds t o)) :
    op.Balks a ∨ ∃ text, a = .panicked text ∧ w.LoggerPanics t text := by
  rcases he : w.engagement? t with - | e
  · exact .inl (skips_of_answers he ha).balks
  · obtain ⟨rfl, s, o, ho, hconclude⟩ := concludes_of_answers he ha
    obtain ⟨c, hc, hbalks | ⟨text, rfl, hpanics⟩⟩ := h _ _ (ending?_eq_some he ho)
    · exact .inl (balks_of_conclude hconclude hc (hw.jobs.reaches he).2 hbalks)
    · rw [Session.conclude_panicked] at hconclude
      cases hconclude
      exact .inr ⟨text, rfl, hpanics⟩

/-- What becomes of a queue and of the calls on it after its buffer lock was poisoned. -/
structure BufferGone (w : Traffic α) (later : List (Happening (Operation α))) : Prop where
  /-- The lock stays poisoned, the ring and the hooks are as they were, and no hook is called. -/
  frozen : Queue.Frozen w.shared.queue (w.after Session.machine later).shared.queue
  len_eq : (w.after Session.machine later).shared.queue.len = w.shared.queue.len
  /-- A call that comes to the lock is told that it is poisoned, at once or in the next step of its
  task. -/
  turned_away : ∀ t e, (w.after Session.machine later).engagement? t = some e →
    e.spot.locksBuffer = true →
      (w.after Session.machine later).EndsWith t e.op (.failed Lock.buffer.error) ∨
        ∀ next, .advance t ∉ next →
          ((w.after Session.machine (.advance t :: later)).after Session.machine next).EndsWith t
            e.op (.failed Lock.buffer.error)
  /-- A call that began since balks at the lock. -/
  balks : ∀ t op o, w.BeganSince t later →
    (w.after Session.machine later).ending? t = some (.ended op o) →
      ∃ c, op.call? = some c ∧
        (c.Balks o ∨ (w.after Session.machine later).LoggerEnds t o)
  /-- And so its operation does not answer that all went well. -/
  answers : ∀ t op a, w.BeganSince t later → (w.after Session.machine later).Answers t op a →
    op.Balks a ∨ ∃ text, a = .panicked text ∧ (w.after Session.machine later).LoggerPanics t text

theorem Regular.bufferGone (hw : w.Regular) (hb : w.shared.queue.bufferPoisoned = true)
    (later : List (Happening (Operation α))) : w.BufferGone later := by
  have hfrozen := hw.frozen_after hb later
  have hv := hw.after later
  have hbalks (t : Int) (hbegan : w.BeganSince t later) (op : Operation α) (o : Outcome α)
      (hend : (w.after Session.machine later).ending? t = some (.ended op o)) :
      ∃ c, op.call? = some c ∧ (c.Balks o ∨ (w.after Session.machine later).LoggerEnds t o) := by
    obtain ⟨e, he, rfl, ho⟩ := exists_of_ending hend
    obtain ⟨⟨c, hc, hreach⟩, -⟩ := hv.jobs.reaches he
    refine ⟨c, hc, ?_⟩
    obtain ⟨r, q', move, hp, hm | ⟨hm, hpanics⟩⟩ := hv.section_cases he
    · obtain rfl := hm.symm.trans ho
      refine .inl (hp.balks hfrozen.poisoned ?_ hreach)
      rw [← phases_get_of_engagement he]
      exact hw.barred_after hb later hbegan
    · cases hm.symm.trans ho
      exact .inr ⟨_, rfl, hpanics⟩
  exact ⟨hfrozen, congrArg Ring.len hfrozen.ring_eq,
    fun t e he hs => hv.turned_away hfrozen.poisoned he hs,
    fun t op o hbegan => hbalks t hbegan op o,
    fun t op a hbegan ha => hv.balks_of_answers ha (hbalks t hbegan)⟩

/-! ## The producers lock -/

theorem Regular.producers_frozen_happen (hw : w.Regular)
    (hp : w.shared.queue.producersPoisoned = true) (x : Happening (Operation α)) :
    (w.happen Session.machine x).shared.queue.producersPoisoned = true ∧
      (w.happen Session.machine x).shared.queue.producers = w.shared.queue.producers := by
  cases x with
  | handOut a => rw [World.happen, handOut_shared]; exact ⟨hp, rfl⟩
  | advance t =>
    rw [World.happen]
    rcases he : w.engagement? t with - | e
    · obtain ⟨log, hq⟩ := (quiet_advance he).1.queue_eq
      rw [hq]
      exact ⟨hp, rfl⟩
    · obtain ⟨log, hq⟩ := exists_log he
      rw [hq]
      exact Queue.producers_frozen_sectionAt (hw.workable he) hp

/-- The poisoned producers lock stays so, and the count stays as it is. -/
theorem Regular.producers_frozen_after (hw : w.Regular)
    (hp : w.shared.queue.producersPoisoned = true) (later : List (Happening (Operation α))) :
    (w.after Session.machine later).shared.queue.producersPoisoned = true ∧
      (w.after Session.machine later).shared.queue.producers = w.shared.queue.producers :=
  (after_induction (P := fun v => v.Regular ∧ v.shared.queue.producersPoisoned = true ∧
      v.shared.queue.producers = w.shared.queue.producers) ⟨hw, hp, rfl⟩
    (fun v x hv => by
      obtain ⟨hregular, hpoisoned, hcount⟩ := hv
      obtain ⟨hpoisoned', hcount'⟩ := hregular.producers_frozen_happen hpoisoned x
      exact ⟨hregular.happen x, hpoisoned', hcount'.trans hcount⟩) later).2

/-- A call that has come upon the end of input did so before the producers lock was poisoned. -/
theorem Regular.drains_before (hw : w.Regular) (hp : w.shared.queue.producersPoisoned = true)
    (later : List (Happening (Operation α))) (h : (w.after Session.machine later).Drains t) :
    ∀ m ∈ marksOf t (w.chronicle later), m.popped? = none := by
  induction later with
  | nil => exact fun m hm => absurd hm List.not_mem_nil
  | cons x later ih =>
    have hv := hw.after later
    rcases drains_happen hv h with ⟨hbefore, hnone⟩ | ⟨rfl, hconcludes⟩
    · intro m hm
      rw [show x :: later = [x] ++ later from rfl, chronicle_append, marksOf_join] at hm
      exact (List.mem_append.1 hm).elim (fun hm => (hnone m hm).2) (ih hbefore m)
    · have hconcluded := hconcludes.concluded
      obtain ⟨e, he⟩ := exists_engagement_of_noted hconcluded
      obtain ⟨q', move, notes, himprint⟩ := hv.imprint he
      obtain ⟨r, hpassage⟩ := himprint.passage
      have hmem : .concluded ∈ notes :=
        himprint.note_marks ▸ List.mem_filterMap.2 ⟨_, hconcluded, rfl⟩
      cases (hpassage.sound_of_concluded himprint.history_eq hmem).symm.trans
        (hw.producers_frozen_after hp later).1

/-- What becomes of a queue and of the calls on it after its producers lock was poisoned. -/
structure ProducersGone (w : Traffic α) (later : List (Happening (Operation α))) : Prop where
  poisoned : (w.after Session.machine later).shared.queue.producersPoisoned = true
  count_eq : (w.after Session.machine later).shared.queue.producers = w.shared.queue.producers
  /-- A registration or a deregistration is over at once and leaves the queue as it is, but for its
  log; no marker is put. -/
  shut_out : ∀ t e c, (w.after Session.machine later).engagement? t = some e →
    e.spot = .opening c → c = .register ∨ c = .deregister →
      (w.after Session.machine later).EndsWith t e.op (.failed Lock.producers.error) ∧
        ∃ log, (w.after Session.machine (.advance t :: later)).shared.queue =
          { (w.after Session.machine later).shared.queue with log := log }
  /-- A clearing fails at this lock, or before at the other one. -/
  clear_shut_out : ∀ t e, (w.after Session.machine later).engagement? t = some e →
    e.spot = .opening .clear →
      (w.after Session.machine later).EndsWith t e.op (.failed Lock.producers.error) ∨
        (w.after Session.machine later).shared.queue.bufferPoisoned = true ∧
          (w.after Session.machine later).EndsWith t e.op (.failed Lock.buffer.error)
  /-- Who is told that there is no item has popped nothing since. -/
  not_drained : ∀ t op, (w.after Session.machine later).ending? t = some (.ended op .drained) →
    ∀ m ∈ marksOf t (w.chronicle (.advance t :: later)), m.popped? = none

/-- Who is told in the next step that there is no item does not pop anything in it. -/
theorem Regular.pops_nothing (hw : w.Regular)
    (hend : w.ending? t = some (.ended op .drained)) : ∀ m ∈ w.marks t, m.popped? = none := by
  obtain ⟨e, he, -, ho⟩ := exists_of_ending hend
  obtain ⟨r, q', move, hp, hs | ⟨-, b, p, hs⟩⟩ := hw.stride he
  · obtain rfl := hs.section_eq.symm.trans ho
    obtain ⟨log, hq⟩ := hs.queue_eq
    have hhistory : q'.history = (w.marks t).filterMap Mark.note? ++ w.shared.queue.history := by
      rw [← noted_marks hw t, hq]
    have hnone := hp.pops_nothing hhistory
    rw [List.filterMap_filterMap, List.filterMap_eq_nil_iff] at hnone
    exact hnone
  · cases hs.section_eq.symm.trans ho

theorem Regular.producersGone (hw : w.Regular) (hp : w.shared.queue.producersPoisoned = true)
    (later : List (Happening (Operation α))) : w.ProducersGone later := by
  obtain ⟨hpoisoned, hcount⟩ := hw.producers_frozen_after hp later
  have hv := hw.after later
  refine ⟨hpoisoned, hcount, fun t e c he hs hc => ⟨?_, ?_⟩, fun t e he hs => ?_,
    fun t op hend m hm => ?_⟩
  · refine hv.endsWith he fun r q' move hpassage => ?_
    rw [hs] at hpassage
    exact (hpassage.shut_out hpoisoned hc).2.2
  · obtain ⟨r, q', move, hpassage, hsec⟩ := Queue.exists_passage (hv.workable he)
    obtain ⟨log, hq⟩ := exists_log he
    rw [hs] at hpassage
    obtain ⟨rfl, rfl, -⟩ := hpassage.shut_out hpoisoned hc
    rw [after_cons, World.happen, hq, hsec, Queue.remarked_fst]
    exact ⟨log, rfl⟩
  · obtain ⟨r, q', move, hpassage, hm | ⟨hm, hpanics⟩⟩ := hv.section_cases he
    · rw [hs] at hpassage
      rcases hpassage.clear_shut_out hpoisoned with rfl | ⟨hb, rfl⟩
      · exact .inl ⟨_, ending?_eq_some he hm, .inl rfl⟩
      · exact .inr ⟨hb, _, ending?_eq_some he hm, .inl rfl⟩
    · exact .inl ⟨_, ending?_eq_some he hm, .inr ⟨_, rfl, hpanics⟩⟩
  · rw [chronicle, marksOf_append, if_pos rfl] at hm
    exact (List.mem_append.1 hm).elim (hv.pops_nothing hend m)
      (hw.drains_before hp later (drains_of_ending hv hend) m)

section Fresh

variable {capacity : Nat} (onEnqueue onDequeue : Option (Hook α)) (log : Logbook)

/-- **Poisoning is permanent**, and what a poisoned lock guards is frozen.  However a run goes on
after the buffer lock was poisoned: the ring and the hooks stay as they are, no hook is called, and
every call that comes to the lock is told so.  After the producers lock was poisoned, the count
stays as it is, nobody registers, deregisters or clears, and who pops a slot is not told that there
is no item. -/
theorem poison_lasts (hpos : 0 < capacity) (hmax : capacity ≤ Semaphore.maxPermits)
    (earlier later : List (Happening (Operation α))) :
    let w := (Traffic.fresh capacity onEnqueue onDequeue log).after Session.machine earlier
    (w.shared.queue.bufferPoisoned = true → w.BufferGone later) ∧
      (w.shared.queue.producersPoisoned = true → w.ProducersGone later) := by
  intro w
  have hw : w.Regular := regular_after onEnqueue onDequeue log hpos hmax earlier
  exact ⟨fun hb => hw.bufferGone hb later, fun hp => hw.producersGone hp later⟩

end Fresh

/-- The logger panics at a registration, and a hook at an item. -/
def collapse : List (Happening (Operation Nat)) :=
  [.advance 1, .advance 1, .advance 1, .advance 1,
    .handOut ⟨1, [.perform (.trap "producer"), .perform .register, .perform (.enqueue 7)]⟩]

/-- Another task comes with an item. -/
def visit : List (Happening (Operation Nat)) :=
  [.advance 2, .advance 2, .handOut ⟨2, [.perform (.enqueue 8)]⟩]

theorem poison_lasts_collapse :
    let w := (Traffic.fresh 2 (some (.ofVerdict fun _ _ => .panic "no")) none
      (.blank (some .trace))).after Session.machine collapse
    (w.shared.queue.bufferPoisoned = true ∧ w.shared.queue.producersPoisoned = true) ∧
      w.BufferGone visit ∧ w.ProducersGone visit ∧ w.BeganSince 2 visit ∧
      (w.after Session.machine visit).ending? 2 =
        some (.ended (.enqueue 8) (.failed Lock.buffer.error)) := by
  intro w
  have hb : w.shared.queue.bufferPoisoned = true := rfl
  have hp : w.shared.queue.producersPoisoned = true := rfl
  have hmax : 2 ≤ Semaphore.maxPermits := by decide
  obtain ⟨hbuffer, hproducers⟩ := poison_lasts (some (.ofVerdict fun _ _ => .panic "no")) none
    (.blank (some .trace)) Nat.two_pos hmax collapse visit
  exact ⟨⟨hb, hp⟩, hbuffer hb, hproducers hp, .inl fun p hp => absurd hp (Multiset.notMem_zero p),
    rfl⟩

end World

end BoundedQueue
