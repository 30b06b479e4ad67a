import BoundedQueue.Proofs.Queue.Panics
import BoundedQueue.Proofs.Session.Poison

/-!
# Which panic poisons which lock

Hooks and the logger can panic at many places, but few of these lie under a lock.  `Poisons` lists
them for each lock: every hook is called under the buffer lock; the logger is called under it only
by a consumer that has popped a marker and finds the producers lock poisoned, and under the
producers lock only for the records that tell what became of the count.

* `LoggerPanicsAt` says that the logger panics at a record in the next step of a task.  That can be
  seen from outside: the trap was set, it is not set any more, and the record is the last one
  written.  `LoggerPanicsAt.cases` says where this happens: at the remark of a section, or at the
  failure of a guard that was dropped.
* `isPoisoned_section` reduces a step to its section, and `Regular.isPoisoned_advance` says that a
  step poisons a lock if a hook or the logger panics in it under the lock, and not otherwise.
* `Blame` says for one step who it is that panics where, and that every other panic of the logger,
  and every rejection by a hook, leaves both locks alone.

`panics_blamed` is about whole runs: a lock is poisoned if and only if one of these cases has
occurred.  Since nothing undoes the poisoning, that is an induction in which a step adds at most one
case (`isPoisoned_after`).
-/

set_option autoImplicit false

namespace BoundedQueue

variable {α : Type}

/-! ## Traps -/

namespace Logbook

variable {b : Logbook} {r : Record}

theorem springs_of_trap (hset : b.trap ≠ none) (h : (b.write r).trap = none) :
    b.springs r = true := by
  by_contra hs
  exact hset ((if_neg hs).symm.trans h)

/-- The record at which the logger panics is written first. -/
theorem head?_write_of_springs (h : b.springs r = true) :
    (b.write r).records.head? = some r := by
  have hkeeps : b.keeps r.level = true := by
    unfold springs at h
    split at h
    · cases h
    · exact (Bool.and_eq_true_iff.1 h).1
  rw [write, if_pos hkeeps, List.head?_cons]

end Logbook

/-- The call that puts an entry for a reason. -/
def Errand.IsOf (errand : Errand α) (c : Call α) : Prop :=
  match errand with
  | .deliver a => c = .enqueue a ∨ c = .tryEnqueue a
  | .farewell => c = .deregister
  | .relay => c = .dequeue

theorem Call.Visits.isOf {c : Call α} {p : Phase α} {errand : Errand α} (h : c.Visits p)
    (hp : p.errand? = some errand) : errand.IsOf c := by
  cases c with
  | enqueue => cases hp.symm.trans h; exact .inl rfl
  | tryEnqueue => cases hp.symm.trans h; exact .inr rfl
  | deregister => cases hp.symm.trans h; rfl
  | dequeue =>
    rcases h with h | ⟨h, -⟩
    · cases hp.symm.trans h
    · cases hp.symm.trans h; rfl
  | register | install | clear => exact h.elim

namespace World

variable {w : Traffic α} {t : Int} {e : Engagement α}

/-! ## Panics in a step -/

/-- The logger panics at a record in the next step of task `t`: the trap springs, and the record is
the last one that is written. -/
def LoggerPanicsAt (w : Traffic α) (t : Int) (record : Record) : Prop :=
  w.LoggerPanics t Logbook.panicText ∧
    (w.advance Session.machine t).1.shared.queue.log.records.head? = some record

/-- In its next step task `t` pops a marker that is the last entry in the ring. -/
def PopsLastMarker (w : Traffic α) (t : Int) : Prop :=
  .noted (.popped .eof) ∈ w.marks t ∧
    (w.advance Session.machine t).1.shared.queue.ring.contents = []

/-- A panic in the next step of task `t` is one under a lock. -/
def Poisons (w : Traffic α) (t : Int) : Lock → Prop
  | .buffer => (∃ text, w.HookPanics t text) ∨
      w.LoggerPanicsAt t .producersPoisoned ∧ w.PopsLastMarker t
  | .producers => ∃ record, record.tellsCount = true ∧ w.LoggerPanicsAt t record

/-- Nothing is written into the log in a step in which no section is carried out. -/
theorem log_of_quiet (he : w.engagement? t = none) :
    (w.advance Session.machine t).1.shared.queue.log = w.shared.queue.log ∨
      ∃ text, (w.advance Session.machine t).1.shared.queue.log =
        w.shared.queue.log.setTrap text := by
  have hsteps := sidesteps he
  generalize w.advance Session.machine t = step at hsteps
  cases hsteps with
  | skips _ hskips =>
    rcases hskips.queue_eq with hqueue | ⟨text, hqueue⟩
    · exact .inl (congrArg Queue.log hqueue)
    · exact .inr ⟨text, congrArg Queue.log hqueue⟩
  | rests | yields | goesOn | misreads => exact .inl rfl

/-- A trap stays set in a step in which no section is carried out. -/
theorem trap_of_quiet (he : w.engagement? t = none) (hset : w.shared.queue.log.trap ≠ none) :
    (w.advance Session.machine t).1.shared.queue.log.trap ≠ none := by
  obtain hlog | ⟨text, hlog⟩ := log_of_quiet he
  · rw [hlog]
    exact hset
  · rw [hlog]
    exact Option.some_ne_none text

/-- The logger panics in a step only if a section is carried out. -/
theorem LoggerPanics.exists_engagement {text : String} (h : w.LoggerPanics t text) :
    ∃ e, w.engagement? t = some e := by
  rcases he : w.engagement? t with - | e
  · exact absurd h.2.2 (trap_of_quiet he h.2.1)
  · exact ⟨e, rfl⟩

section Remarks

variable {q' : Queue α} {move : Move (Phase α) Side (Outcome α)} {r : Option Remark}
  {record : Record}

/-- Who panics, if a trap springs at the remark of a section. -/
theorem loggerPanicsAt_of_springs (he : w.engagement? t = some e)
    (hp : w.shared.queue.Passage e.spot r q' move)
    (hr : Queue.Remarks q' move r (w.shared.queue.sectionAt e.spot)) {remark : Remark}
    (hremark : r = some remark) (hs : q'.log.springs remark.record = true) :
    w.LoggerPanicsAt t remark.record := by
  have hlog : (w.shared.queue.sectionAt e.spot).1.log = q'.log.write remark.record ∧
      (w.shared.queue.sectionAt e.spot).2 = .finish (.panicked Logbook.panicText) := by
    subst hremark
    generalize w.shared.queue.sectionAt e.spot = s at hr
    cases hr with
    | written hs' => cases hs'.symm.trans hs
    | sprung => exact ⟨Queue.log_sprung _ _, rfl⟩
  obtain ⟨hset, hsprung⟩ := Queue.trap_of_springs hs
  rw [hp.log_eq] at hset
  rcases queue_advance he with hq | ⟨err, ho, -⟩
  · refine ⟨⟨rfl, hset, ?_⟩, ?_⟩
    · rw [hq, hlog.1, hsprung]
    · rw [hq, hlog.1, Logbook.head?_write_of_springs hs]
  · cases hlog.2.symm.trans ho

/-- The logger panics at the remark of a section, or else at the failure of a guard that was
dropped. -/
theorem LoggerPanicsAt.cases (h : w.LoggerPanicsAt t record) (he : w.engagement? t = some e)
    (hp : w.shared.queue.Passage e.spot r q' move)
    (hr : Queue.Remarks q' move r (w.shared.queue.sectionAt e.spot)) :
    (∃ remark, r = some remark ∧ q'.log.springs remark.record = true ∧ remark.record = record) ∨
      (∀ remark, r = some remark → q'.log.springs remark.record = false) ∧
        ∃ err, record = .dropFailed err ∧ move = .finish (.failed err) := by
  obtain ⟨⟨-, hset, hsprung⟩, hhead⟩ := h
  rw [← hp.log_eq] at hset
  -- a section that leaves the trap set is the last one of a call that fails
  have hdrop {q : Queue α} (hq : (w.shared.queue.sectionAt e.spot).1 = q)
      (hmove : (w.shared.queue.sectionAt e.spot).2 = move) (htrap : q.log.trap = q'.log.trap) :
      ∃ err, record = .dropFailed err ∧ move = .finish (.failed err) := by
    rcases queue_advance he with hq' | ⟨err, ho, hq'⟩
    · rw [hq', hq, htrap] at hsprung
      exact absurd hsprung hset
    · rw [hq', hq] at hsprung hhead
      have hs : q.log.springs (.dropFailed err) = true :=
        Logbook.springs_of_trap (htrap ▸ hset) hsprung
      have hhead' : some (Record.dropFailed err) = some record :=
        (Logbook.head?_write_of_springs hs).symm.trans hhead
      exact ⟨err, (Option.some_inj.1 hhead').symm, hmove.symm.trans ho⟩
  generalize hsec : w.shared.queue.sectionAt e.spot = s at hr
  cases hr with
  | none => exact .inr ⟨nofun, hdrop (congrArg Prod.fst hsec) (congrArg Prod.snd hsec) rfl⟩
  | @written remark hs =>
    refine .inr ⟨fun _ hsome => Option.some_inj.1 hsome ▸ hs, ?_⟩
    exact hdrop (congrArg Prod.fst hsec) (congrArg Prod.snd hsec) (if_neg (by simp [hs]))
  | @sprung remark hs =>
    refine .inl ⟨remark, rfl, hs, ?_⟩
    have hhead' := (loggerPanicsAt_of_springs he hp (hsec ▸ .sprung hs) rfl hs).2
    exact Option.some_inj.1 (hhead'.symm.trans hhead)

end Remarks

/-! ## Which lock it poisons -/

section Section

variable {q' : Queue α} {move : Move (Phase α) Side (Outcome α)} {r : Option Remark}

/-- What a section leaves behind, apart from its log and the locks, is there after the step. -/
theorem same_advance (he : w.engagement? t = some e)
    (hr : Queue.Remarks q' move r (w.shared.queue.sectionAt e.spot)) :
    (w.advance Session.machine t).1.shared.queue.ring = q'.ring ∧
      (w.advance Session.machine t).1.shared.queue.producers = q'.producers ∧
      (w.advance Session.machine t).1.shared.queue.history = q'.history := by
  obtain ⟨log, hq⟩ := exists_log he
  rw [hq]
  exact hr.same

/-- The marks of a step tell what its section adds to the history. -/
theorem Regular.history_eq (hw : w.Regular) (he : w.engagement? t = some e)
    (hr : Queue.Remarks q' move r (w.shared.queue.sectionAt e.spot)) :
    q'.history = (w.marks t).filterMap Mark.note? ++ w.shared.queue.history := by
  rw [← noted_marks hw t, (same_advance he hr).2.2]

/-- After a step, a lock is poisoned if it is after the section. -/
theorem isPoisoned_section (he : w.engagement? t = some e) (lock : Lock) :
    (w.advance Session.machine t).1.shared.queue.isPoisoned lock =
      (w.shared.queue.sectionAt e.spot).1.isPoisoned lock := by
  obtain ⟨log, hq⟩ := exists_log he
  rw [hq]
  cases lock <;> rfl

/-- A hook panics in a step if it does in the passage that the step consists in. -/
theorem hookPanics_iff (he : w.engagement? t = some e)
    (hp : w.shared.queue.Passage e.spot r q' move)
    (hr : Queue.Remarks q' move r (w.shared.queue.sectionAt e.spot)) {text : String} :
    w.HookPanics t text ↔ move = .finish (.panicked text) := by
  rw [HookPanics, (same_advance he hr).2.2]
  constructor
  · rintro ⟨stage, entry, hn⟩
    exact (hp.consulted hn (List.mem_singleton_self _)).panicked text rfl
  · rintro rfl
    exact hp.hook_panicked.2

/-- The buffer lock is poisoned by the logger in one case only. -/
theorem Regular.poisons_buffer (hw : w.Regular) (he : w.engagement? t = some e)
    (hp : w.shared.queue.Passage e.spot r q' move)
    (hr : Queue.Remarks q' move r (w.shared.queue.sectionAt e.spot)) :
    (∃ remark, r = some remark ∧ q'.log.springs remark.record = true ∧
        remark.under = some .buffer) ↔
      w.LoggerPanicsAt t .producersPoisoned ∧ w.PopsLastMarker t := by
  have hnotes := hw.history_eq he hr
  constructor
  · rintro ⟨remark, hremark, hs, hunder⟩
    have hpanics := loggerPanicsAt_of_springs he hp hr hremark hs
    subst hremark
    obtain ⟨hrecord, hpopped⟩ := (hp.under_buffer_iff hnotes).1 hunder
    obtain ⟨record, under⟩ := remark
    obtain rfl : under = some .buffer := hunder
    obtain ⟨-, -, hcontents⟩ := hp.of_under_buffer hw.within.ringSound
    refine ⟨hrecord ▸ hpanics, mem_noted.2 hpopped, ?_⟩
    rw [(same_advance he hr).1, hcontents]
  · rintro ⟨hpanics, hpopped, -⟩
    rcases hpanics.cases he hp hr with ⟨remark, rfl, hs, hrecord⟩ | ⟨-, err, hrecord, -⟩
    · exact ⟨remark, rfl, hs, (hp.under_buffer_iff hnotes).2 ⟨hrecord, mem_noted.1 hpopped⟩⟩
    · cases hrecord

/-- The producers lock is poisoned by the logger, at the records that tell what became of the
count. -/
theorem poisons_producers (he : w.engagement? t = some e)
    (hp : w.shared.queue.Passage e.spot r q' move)
    (hr : Queue.Remarks q' move r (w.shared.queue.sectionAt e.spot)) :
    (∃ remark, r = some remark ∧ q'.log.springs remark.record = true ∧
        remark.under = some .producers) ↔
      ∃ record, record.tellsCount = true ∧ w.LoggerPanicsAt t record := by
  constructor
  · rintro ⟨remark, hremark, hs, hunder⟩
    have hpanics := loggerPanicsAt_of_springs he hp hr hremark hs
    subst hremark
    exact ⟨remark.record, hp.under_producers_iff.1 hunder, hpanics⟩
  · rintro ⟨record, htells, hpanics⟩
    rcases hpanics.cases he hp hr with ⟨remark, rfl, hs, rfl⟩ | ⟨-, err, rfl, -⟩
    · exact ⟨remark, rfl, hs, hp.under_producers_iff.2 htells⟩
    · cases htells

end Section

/-- Nothing panics in a step in which no section is carried out. -/
theorem not_poisons_of_quiet (he : w.engagement? t = none) (lock : Lock) :
    ¬w.Poisons t lock := by
  have hlogger (record : Record) : ¬w.LoggerPanicsAt t record := by
    rintro ⟨hpanics, -⟩
    obtain ⟨e, he'⟩ := hpanics.exists_engagement
    cases he.symm.trans he'
  cases lock with
  | producers =>
    rintro ⟨record, -, hpanics⟩
    exact hlogger record hpanics
  | buffer =>
    rintro (⟨text, stage, entry, hn⟩ | ⟨hpanics, -⟩)
    · rw [(quiet_advance he).1.history_eq] at hn
      exact absurd hn.symm (List.cons_ne_self _ _)
    · exact hlogger _ hpanics

/-- **A step poisons a lock** if a hook or the logger panics in it under the lock, and not
otherwise. -/
theorem Regular.isPoisoned_advance (hw : w.Regular) (t : Int) (lock : Lock) :
    (w.advance Session.machine t).1.shared.queue.isPoisoned lock = true ↔
      w.shared.queue.isPoisoned lock = true ∨ w.Poisons t lock := by
  rcases he : w.engagement? t with - | e
  · rw [or_iff_left (not_poisons_of_quiet he lock)]
    obtain ⟨log, hq⟩ := (quiet_advance he).1.queue_eq
    rw [hq]
    cases lock <;> rfl
  · obtain ⟨r, q', move, hp, hr⟩ := Queue.exists_remarks (hw.workable he)
    rw [isPoisoned_section he, hr.isPoisoned_iff, hp.isPoisoned_iff, or_assoc]
    refine or_congr_right ?_
    cases lock with
    | buffer =>
      refine or_congr ?_ (hw.poisons_buffer he hp hr)
      simp only [true_and, hookPanics_iff he hp hr]
    | producers =>
      rw [or_iff_right (by simp)]
      exact poisons_producers he hp hr

/-! ## Who is to blame -/

/-- What can be said of the panics and of the locks in the next step of task `t`. -/
structure Blame (w : Traffic α) (t : Int) : Prop where
  /-- A lock becomes poisoned by a panic under it, and in no other way. -/
  poisons_iff : ∀ lock, (w.advance Session.machine t).1.shared.queue.isPoisoned lock = true ↔
    w.shared.queue.isPoisoned lock = true ∨ w.Poisons t lock
  /-- A hook panics in a call that puts an entry, be it a marker that a consumer puts back, or in
  one that takes an entry. -/
  hook_origin : ∀ text, w.HookPanics t text → ∃ e c, w.engagement? t = some e ∧
    e.op.call? = some c ∧ ((∃ errand, e.spot = .phase (.store errand) ∧ errand.IsOf c) ∨
      e.spot = .phase .fetch ∧ c = .dequeue)
  /-- Where the logger panics under the buffer lock, a call that takes an entry has found the
  producers lock poisoned. -/
  blind_origin : w.LoggerPanicsAt t .producersPoisoned → w.PopsLastMarker t →
    w.shared.queue.producersPoisoned = true ∧
      ∃ e, w.engagement? t = some e ∧ e.op.call? = some .dequeue
  /-- Where the logger panics under the producers lock, the count is up or down already, or there
  was no producer to deregister. -/
  count_told : ∀ record, record.tellsCount = true → w.LoggerPanicsAt t record →
    let v := (w.advance Session.machine t).1
    (record = .registered v.shared.queue.producers ∧
        v.shared.queue.producers = w.shared.queue.producers + 1) ∨
      (record = .deregistered v.shared.queue.producers ∧
        w.shared.queue.producers = v.shared.queue.producers + 1) ∨
      (record = .unmatchedDeregister ∧ w.shared.queue.producers = 0 ∧
        v.shared.queue.producers = 0)
  /-- Where the logger panics at any other record, both locks are as before. -/
  logger_harmless : ∀ record, w.LoggerPanicsAt t record → record.tellsCount = false →
    ¬(record = .producersPoisoned ∧ w.PopsLastMarker t) → ∀ lock,
      (w.advance Session.machine t).1.shared.queue.isPoisoned lock =
        w.shared.queue.isPoisoned lock
  /-- Where a hook rejects an entry, both locks are as before. -/
  reject_harmless : ∀ stage entry cause,
    .noted (.consulted stage entry (.reject cause)) ∈ w.marks t → ∀ lock,
      (w.advance Session.machine t).1.shared.queue.isPoisoned lock =
        w.shared.queue.isPoisoned lock

/-- The call that a hook panics in. -/
theorem Regular.hook_origin (hw : w.Regular) {text : String} (h : w.HookPanics t text) :
    ∃ e c, w.engagement? t = some e ∧ e.op.call? = some c ∧
      ((∃ errand, e.spot = .phase (.store errand) ∧ errand.IsOf c) ∨
        e.spot = .phase .fetch ∧ c = .dequeue) := by
  rcases he : w.engagement? t with - | e
  · exact absurd (.inl ⟨text, h⟩) (not_poisons_of_quiet he .buffer)
  · obtain ⟨r, q', move, hp, hr⟩ := Queue.exists_remarks (hw.workable he)
    obtain ⟨⟨c, hc, hreach⟩, -⟩ := hw.jobs.reaches he
    refine ⟨e, c, rfl, hc, ?_⟩
    obtain ⟨stage, entry, hn⟩ := h
    rw [(same_advance he hr).2.2] at hn
    rcases (hp.consulted hn (List.mem_singleton_self _)).place with
      ⟨-, errand, hspot, -⟩ | ⟨-, hspot, -⟩
    · rw [hspot] at hreach
      exact .inl ⟨errand, hspot, Call.Visits.isOf hreach rfl⟩
    · rw [hspot] at hreach
      exact .inr ⟨hspot, Call.eq_dequeue hreach rfl⟩

/-- The call in which the logger panics under the buffer lock. -/
theorem Regular.blind_origin (hw : w.Regular) (hpanics : w.LoggerPanicsAt t .producersPoisoned)
    (hpops : w.PopsLastMarker t) : w.shared.queue.producersPoisoned = true ∧
      ∃ e, w.engagement? t = some e ∧ e.op.call? = some .dequeue := by
  obtain ⟨e, he⟩ := hpanics.1.exists_engagement
  obtain ⟨r, q', move, hp, hr⟩ := Queue.exists_remarks (hw.workable he)
  obtain ⟨⟨record, under⟩, rfl, hs, hunder⟩ := (hw.poisons_buffer he hp hr).2 ⟨hpanics, hpops⟩
  obtain rfl : under = some .buffer := hunder
  obtain ⟨hspot, hpoisoned, -⟩ := hp.of_under_buffer hw.within.ringSound
  obtain ⟨⟨c, hc, hreach⟩, -⟩ := hw.jobs.reaches he
  rw [hspot] at hreach
  exact ⟨hpoisoned, e, he, Call.eq_dequeue hreach rfl ▸ hc⟩

/-- What becomes of the count where the logger panics under the producers lock. -/
theorem Regular.count_told (hw : w.Regular) {record : Record} (htells : record.tellsCount = true)
    (hpanics : w.LoggerPanicsAt t record) :
    let v := (w.advance Session.machine t).1
    (record = .registered v.shared.queue.producers ∧
        v.shared.queue.producers = w.shared.queue.producers + 1) ∨
      (record = .deregistered v.shared.queue.producers ∧
        w.shared.queue.producers = v.shared.queue.producers + 1) ∨
      (record = .unmatchedDeregister ∧ w.shared.queue.producers = 0 ∧
        v.shared.queue.producers = 0) := by
  intro v
  obtain ⟨e, he⟩ := hpanics.1.exists_engagement
  obtain ⟨r, q', move, hp, hr⟩ := Queue.exists_remarks (hw.workable he)
  have hproducers : v.shared.queue.producers = q'.producers := (same_advance he hr).2.1
  rw [hproducers]
  rcases hpanics.cases he hp hr with ⟨⟨record', under⟩, rfl, hs, rfl⟩ | ⟨-, err, rfl, -⟩
  · rcases hp.count_told htells with ⟨-, hup⟩ | ⟨-, hdown⟩ | ⟨-, hsame⟩
    · exact .inl hup
    · exact .inr (.inl hdown)
    · exact .inr (.inr hsame)
  · cases htells

/-- Hooks and the logger do not panic in one step. -/
theorem Regular.not_hookPanics (hw : w.Regular) {record : Record}
    (hpanics : w.LoggerPanicsAt t record) (text : String) : ¬w.HookPanics t text := by
  obtain ⟨e, he⟩ := hpanics.1.exists_engagement
  obtain ⟨r, q', move, hp, hr⟩ := Queue.exists_remarks (hw.workable he)
  rw [hookPanics_iff he hp hr]
  rintro rfl
  rcases hpanics.cases he hp hr with ⟨remark, hremark, -⟩ | ⟨-, err, -, hmove⟩
  · cases hremark.symm.trans hp.hook_panicked.1
  · cases hmove

theorem Regular.isPoisoned_eq (hw : w.Regular) {lock : Lock} (h : ¬w.Poisons t lock) :
    (w.advance Session.machine t).1.shared.queue.isPoisoned lock =
      w.shared.queue.isPoisoned lock := by
  rw [Bool.eq_iff_iff, hw.isPoisoned_advance, or_iff_left h]

/-- A panic of the logger that is under no lock poisons none. -/
theorem Regular.logger_harmless (hw : w.Regular) {record : Record}
    (hpanics : w.LoggerPanicsAt t record) (htells : record.tellsCount = false)
    (hblind : ¬(record = .producersPoisoned ∧ w.PopsLastMarker t)) (lock : Lock) :
    (w.advance Session.machine t).1.shared.queue.isPoisoned lock =
      w.shared.queue.isPoisoned lock := by
  have hsame {record' : Record} (h : w.LoggerPanicsAt t record') : record' = record :=
    Option.some_inj.1 (h.2.symm.trans hpanics.2)
  refine hw.isPoisoned_eq ?_
  cases lock with
  | buffer =>
    rintro (⟨text, hhook⟩ | ⟨h, hpops⟩)
    · exact hw.not_hookPanics hpanics text hhook
    · exact hblind ⟨(hsame h).symm, hpops⟩
  | producers =>
    rintro ⟨record', htells', h⟩
    rw [hsame h, htells] at htells'
    cases htells'

/-- A rejection by a hook poisons nothing, even if the logger panics at it. -/
theorem Regular.reject_harmless (hw : w.Regular) {stage : Stage} {entry : Entry α} {cause : Cause}
    (hm : .noted (.consulted stage entry (.reject cause)) ∈ w.marks t) (lock : Lock) :
    (w.advance Session.machine t).1.shared.queue.isPoisoned lock =
      w.shared.queue.isPoisoned lock := by
  have hnote := mem_noted.1 hm
  rcases he : w.engagement? t with - | e
  · exact hw.isPoisoned_eq (not_poisons_of_quiet he lock)
  · obtain ⟨r, q', move, hp, hr⟩ := Queue.exists_remarks (hw.workable he)
    obtain ⟨⟨record, rfl⟩, herror⟩ := (hp.consulted (hw.history_eq he hr) hnote).rejected _ rfl
    rw [isPoisoned_section he, Bool.eq_iff_iff, hr.isPoisoned_iff, hp.isPoisoned_iff, or_assoc]
    refine or_iff_left ?_
    rintro (⟨-, text, rfl⟩ | ⟨remark, hremark, -, hunder⟩)
    · cases herror
    · cases hremark
      cases hunder

theorem Regular.blame (hw : w.Regular) (t : Int) : w.Blame t where
  poisons_iff := hw.isPoisoned_advance t
  hook_origin _ := hw.hook_origin
  blind_origin := hw.blind_origin
  count_told _ := hw.count_told
  logger_harmless _ := hw.logger_harmless
  reject_harmless _ _ _ := hw.reject_harmless

section Fresh

variable {capacity : Nat} (onEnqueue onDequeue : Option (Hook α)) (log : Logbook)

/-- A lock is poisoned after a run if a panic under it occurred on the way. -/
theorem isPoisoned_after (hpos : 0 < capacity) (hmax : capacity ≤ Semaphore.maxPermits)
    (lock : Lock) (hs : List (Happening (Operation α))) :
    let w₀ := Traffic.fresh capacity onEnqueue onDequeue log
    (w₀.after Session.machine hs).shared.queue.isPoisoned lock = true ↔
      ∃ later t earlier, hs = later ++ .advance t :: earlier ∧
        (w₀.after Session.machine earlier).Poisons t lock := by
  intro w₀
  induction hs with
  | nil =>
    have hnone : w₀.shared.queue.isPoisoned lock = false := by
      cases lock <;> rfl
    simp [hnone]
  | cons x hs ih =>
    have hw : (w₀.after Session.machine hs).Regular :=
      regular_after onEnqueue onDequeue log hpos hmax hs
    rw [after_cons, exists_advance_cons_iff, ← ih]
    cases x with
    | handOut a =>
      rw [World.happen, handOut_shared, or_iff_right]
      rintro ⟨t, ⟨⟩, -⟩
    | advance t =>
      rw [World.happen, hw.isPoisoned_advance, or_comm]
      refine or_congr_left ⟨fun h => ⟨t, rfl, h⟩, ?_⟩
      rintro ⟨u, ⟨⟩, h⟩
      exact h

/-- **Which panic poisons which lock.**  The buffer lock is poisoned if and only if a hook has
panicked, or the logger at the report of a consumer that has popped the last marker and finds the
producers lock poisoned; the producers lock if and only if the logger has panicked at a record that
tells what became of the count, by when the count is up, or down, or as it was.  Panics at other
records and rejections by hooks poison neither. -/
theorem panics_blamed (hpos : 0 < capacity) (hmax : capacity ≤ Semaphore.maxPermits)
    (hs : List (Happening (Operation α))) :
    let w₀ := Traffic.fresh capacity onEnqueue onDequeue log
    let w := w₀.after Session.machine hs
    (∀ lock, w.shared.queue.isPoisoned lock = true ↔
      ∃ later t earlier, hs = later ++ .advance t :: earlier ∧
        (w₀.after Session.machine earlier).Poisons t lock) ∧
      ∀ t, w.Blame t := by
  intro w₀ w
  have hw : w.Regular := regular_after onEnqueue onDequeue log hpos hmax hs
  exact ⟨fun lock => isPoisoned_after onEnqueue onDequeue log hpos hmax lock hs, hw.blame⟩

end Fresh

/-- A queue with a single slot that reports everything. -/
def talkative : Traffic Nat := .fresh 1 none none (.blank (some .trace))

/-- A producer comes and leaves a marker; the logger panics when another one is registered, and
again when a consumer has popped the marker. -/
def blackout : List (Happening (Operation Nat)) :=
  [.advance 1, .advance 1, .advance 1, .advance 1, .advance 1, .advance 1, .advance 1, .advance 1,
    .advance 1, .advance 1, .advance 1,
    .handOut ⟨1, [.perform .register, .perform .deregister, .perform (.trap "producer registered"),
      .perform .register, .perform (.trap "producer count"), .perform .dequeue]⟩]

theorem panics_blamed_blackout :
    (∀ lock, (talkative.after Session.machine blackout).shared.queue.isPoisoned lock = true) ∧
      (talkative.after Session.machine blackout).shared.queue.producers = 1 ∧
      ∀ lock, ∃ later t earlier, blackout = later ++ .advance t :: earlier ∧
        (talkative.after Session.machine earlier).Poisons t lock := by
  have hpoisoned (lock : Lock) :
      (talkative.after Session.machine blackout).shared.queue.isPoisoned lock = true := by
    cases lock <;> decide +kernel
  have hmax : 1 ≤ Semaphore.maxPermits := by decide
  obtain ⟨hiff, -⟩ := panics_blamed none none (.blank (some .trace)) Nat.one_pos hmax blackout
  exact ⟨hpoisoned, by decide +kernel, fun lock => (hiff lock).1 (hpoisoned lock)⟩

end World

end BoundedQueue
