import BoundedQueue.Proofs.Queue.Permits
import BoundedQueue.Proofs.Session.Stride

/-!
# Runs of tasks on a queue

Everything that happens to tasks on a queue takes one `World.Course`: the queue stays as it is, or
goes through a `Passage`, or the logger panics at the remark of one.  A step that is a stride is a
passage only as long as the books of the queue are in order, and that they are follows from all
earlier steps having been passages; so the two are proved together, by induction on the run.

* `Course.keeps` is what every invariant of runs is proved with.  It is enough to look at passages,
  if the property does not depend on what is logged or poisoned, survives a call that is given up,
  and one that asks for the next item of an iteration.
* `within_after` says that the books of a queue are `Within` bounds after every run, whatever fails
  or panics, so that no section ever takes another course.
* `HooksCalm`, `LoggerCalm` and `Calm` say that nothing has panicked so far, which is read off the
  history of the queue and off the answers.  `calm_induction` is for what holds as long as that is
  so.
* `permits_account` accounts for every permit of a run without panics.
-/

set_option autoImplicit false

namespace BoundedQueue

variable {α : Type}

/-- A queue on which no task has begun to work. -/
def Traffic.fresh (capacity : Nat) (onEnqueue onDequeue : Option (Hook α)) (log : Logbook) :
    Traffic α :=
  .ofShared (.ofQueue (.fresh capacity onEnqueue onDequeue log))

namespace World

/-! ## The courses that a step can take -/

/-- What can become of the queue and the calls in progress when something happens. -/
inductive Course (w w' : Traffic α) : Prop where
  | quiet (h : Quiet w w')
  | passage {t : Int} {e : Engagement α} {r : Option Remark} {q' : Queue α}
      {move : Move (Phase α) Side (Outcome α)} (hp : w.shared.queue.Passage e.spot r q' move)
      (hs : Stride w w' t e q' move)
  /-- The logger panics, which may poison the lock under which the remark was made. -/
  | sprung {t : Int} {e : Engagement α} {r : Option Remark} {q' : Queue α}
      {move : Move (Phase α) Side (Outcome α)} {bufferPoisoned producersPoisoned : Bool}
      (hr : r ≠ none) (hp : w.shared.queue.Passage e.spot r q' move)
      (hs : Stride w w' t e
        { q' with bufferPoisoned := bufferPoisoned, producersPoisoned := producersPoisoned }
        (.finish (.panicked Logbook.panicText)))

variable {w w' : Traffic α} {t : Int} {e : Engagement α}

/-- The section of an engaged task is a passage, and may end in a panic of the logger. -/
theorem exists_passage (hw : w.tasks.Sorted) (h : w.shared.queue.Within w.phases)
    (he : w.engagement? t = some e) : ∃ r q' move, w.shared.queue.Passage e.spot r q' move ∧
      w.shared.queue.sectionAt e.spot = q'.remarked move r := by
  rw [phases_of_engagement hw he] at h
  exact Queue.exists_passage h.workable

theorem course_happen (hw : w.tasks.Sorted) (h : w.shared.queue.Within w.phases)
    (x : Happening (Operation α)) : Course w (w.happen Session.machine x) := by
  cases x with
  | handOut a => exact .quiet (quiet_handOut w a)
  | advance t =>
    rcases he : w.engagement? t with - | e
    · exact .quiet (quiet_advance he).1
    · obtain ⟨r, q', move, hp, hsec⟩ := exists_passage hw h he
      rcases q'.remarked_cases move r with ⟨log, hr⟩ | ⟨log, b, p, hne, hr⟩
      · obtain ⟨⟨-, hmove, ⟨log', hq⟩, hland⟩, -⟩ := stride_advance he (hsec.trans hr)
        exact .passage hp ⟨he, hmove, ⟨log', hq⟩, hland⟩
      · obtain ⟨⟨-, hmove, ⟨log', hq⟩, hland⟩, -⟩ := stride_advance he (hsec.trans hr)
        exact .sprung hne hp ⟨he, hmove, ⟨log', hq⟩, hland⟩

section Keeps

variable {I : Queue α → Multiset (Phase α) → Prop}

/-- After a section, all is as the section left it, but for what is logged and for the next call of
an iteration. -/
theorem Stride.keeps {q' : Queue α} {move : Move (Phase α) Side (Outcome α)}
    (h : Stride w w' t e q' move) (hw : w.tasks.Sorted)
    (hlog : ∀ q log phases, I q phases → I { q with log := log } phases)
    (hask : ∀ q phases, I q phases → I q ({.askFilled} + phases))
    (hI : I q' (move.phases + Stride.others w t)) : I w'.shared.queue w'.phases := by
  obtain ⟨log, hq⟩ := h.queue_eq
  rw [hq]
  rcases h.after hw with ha | ⟨⟨a, rfl⟩, ha⟩
  · rw [ha]
    exact hlog _ _ _ hI
  · rw [Move.phases, zero_add] at hI
    rw [ha]
    exact hask _ _ (hlog _ _ _ hI)

/-- What holds on every course: it is enough to look at passages, if it does not matter what is
logged or poisoned, whether a call is given up, and whether one asks for an item. -/
theorem Course.keeps (h : Course w w') (hw : w.tasks.Sorted) (hI : I w.shared.queue w.phases)
    (hlog : ∀ q log phases, I q phases → I { q with log := log } phases)
    (hask : ∀ q phases, I q phases → I q ({.askFilled} + phases))
    (hdrop : ∀ q bufferPoisoned producersPoisoned phases others, I q (phases + others) →
      I { q with bufferPoisoned := bufferPoisoned, producersPoisoned := producersPoisoned } others)
    (hstep : ∀ spot r q' move others, w.phases = spot.phases + others →
      (spot = .opening .clear → others = 0) → w.shared.queue.Passage spot r q' move →
      I q' (move.phases + others)) : I w'.shared.queue w'.phases := by
  cases h with
  | quiet h =>
    obtain ⟨log, hq⟩ := h.queue_eq
    rw [hq, h.phases_eq hw]
    exact hlog _ _ _ hI
  | passage hp hs =>
    exact hs.keeps hw hlog hask (hstep _ _ _ _ _ (hs.before hw) hs.alone hp)
  | sprung hr hp hs =>
    refine hs.keeps hw hlog hask ?_
    rw [Move.phases, zero_add]
    exact hdrop _ _ _ _ _ (hstep _ _ _ _ _ (hs.before hw) hs.alone hp)

end Keeps

/-! ## The books of every run -/

/-- The books stay within bounds on every course. -/
theorem Course.within (h : Course w w') (hw : w.tasks.Sorted)
    (hq : w.shared.queue.Within w.phases) : w'.shared.queue.Within w'.phases := by
  refine h.keeps hw hq ?_ (fun _ _ => .askFilled) (fun _ b p _ _ hq => hq.change _ b p) ?_
  · intro q log phases hq
    rw [← zero_add phases] at hq
    exact hq.change log _ _
  · intro spot r q' move others hphases halone hp
    rw [hphases] at hq
    exact hq.passage hp halone

section Fresh

variable {capacity : Nat} (onEnqueue onDequeue : Option (Hook α)) (log : Logbook)

theorem sorted_fresh (capacity : Nat) (hs : List (Happening (Operation α))) :
    ((Traffic.fresh capacity onEnqueue onDequeue log).after Session.machine hs).tasks.Sorted :=
  sorted_after Roster.sorted_empty hs

/-- **The books of a queue are within bounds after every run.** -/
theorem within_after (hpos : 0 < capacity) (hmax : capacity ≤ Semaphore.maxPermits)
    (hs : List (Happening (Operation α))) :
    let w := (Traffic.fresh capacity onEnqueue onDequeue log).after Session.machine hs
    w.shared.queue.Within w.phases := by
  induction hs with
  | nil => exact Queue.within_fresh hpos hmax onEnqueue onDequeue log
  | cons x hs ih =>
    have hw := sorted_fresh onEnqueue onDequeue log capacity hs
    exact (course_happen hw ih x).within hw ih

/-- Whatever happens in a run takes one of the courses. -/
theorem course_after (hpos : 0 < capacity) (hmax : capacity ≤ Semaphore.maxPermits)
    (x : Happening (Operation α)) (hs : List (Happening (Operation α))) :
    Course ((Traffic.fresh capacity onEnqueue onDequeue log).after Session.machine hs)
      ((Traffic.fresh capacity onEnqueue onDequeue log).after Session.machine (x :: hs)) :=
  course_happen (sorted_fresh onEnqueue onDequeue log capacity hs)
    (within_after onEnqueue onDequeue log hpos hmax hs) x

end Fresh

/-! ## Runs without panics -/

/-- No hook has panicked so far. -/
def HooksCalm (w : Traffic α) : Prop :=
  ∀ stage entry text, Note.consulted stage entry (.panic text) ∉ w.shared.queue.history

/-- The logger has not panicked so far: no operation has ended with its panic. -/
def LoggerCalm (w : Traffic α) : Prop :=
  ∀ t op, ⟨t, .completed op (.panicked Logbook.panicText)⟩ ∉ w.events

/-- Where no answer is a panic, the logger has not panicked. -/
theorem loggerCalm_of_all {w : Traffic α}
    (h : (w.events.all fun e =>
      match e.what with
      | .completed _ (.panicked _) => false
      | _ => true) = true) : w.LoggerCalm := by
  intro t op hmem
  have hfalse := List.all_eq_true.1 h _ hmem
  cases hfalse

/-- No hook and no logger has panicked so far. -/
def Calm (w : Traffic α) : Prop := w.HooksCalm ∧ w.LoggerCalm

/-- Where besides no verdict is a panic, no hook has panicked either. -/
theorem calm_of_all {w : Traffic α}
    (hhooks : (w.shared.queue.history.all fun n =>
      match n with
      | .consulted _ _ (.panic _) => false
      | _ => true) = true)
    (hlogger : (w.events.all fun e =>
      match e.what with
      | .completed _ (.panicked _) => false
      | _ => true) = true) : w.Calm := by
  refine ⟨fun stage entry text hmem => ?_, loggerCalm_of_all hlogger⟩
  have hfalse := List.all_eq_true.1 hhooks _ hmem
  cases hfalse

theorem Quiet.history_eq (h : Quiet w w') : w'.shared.queue.history = w.shared.queue.history := by
  obtain ⟨⟨log, hlog⟩, -⟩ := h
  rw [hlog]

/-- Nothing that happened to the queue is forgotten. -/
theorem Course.history_eq (h : Course w w') :
    ∃ notes, w'.shared.queue.history = notes ++ w.shared.queue.history := by
  cases h with
  | quiet h => exact ⟨[], h.history_eq⟩
  | passage hp hs | sprung hr hp hs =>
    obtain ⟨notes, hn⟩ := hp.kept.history_eq
    obtain ⟨log, hlog⟩ := hs.queue_eq
    exact ⟨notes, by rw [hlog]; exact hn⟩

/-- What has not panicked by now had not panicked before. -/
theorem Calm.before {x : Happening (Operation α)} (h : Course w (w.happen Session.machine x))
    (hcalm : (w.happen Session.machine x).Calm) : w.Calm := by
  obtain ⟨notes, hn⟩ := h.history_eq
  obtain ⟨new, he⟩ := happen_events Session.machine w x
  refine ⟨fun stage entry text hm => hcalm.1 stage entry text ?_, fun t op hm => hcalm.2 t op ?_⟩
  · rw [hn]; exact List.mem_append_right _ hm
  · rw [he]; exact List.mem_append_right _ hm

section Fresh

variable {capacity : Nat} {onEnqueue onDequeue : Option (Hook α)} {log : Logbook}

/-- What is kept by every passage in which nothing panics holds after every run without panics.
`A` is what is assumed of the worlds on the way. -/
theorem calm_induction {I A : Queue α → Multiset (Phase α) → Prop} (hpos : 0 < capacity)
    (hmax : capacity ≤ Semaphore.maxPermits)
    (hfresh : I (.fresh capacity onEnqueue onDequeue log) 0)
    (hlog : ∀ q log phases, I q phases → I { q with log := log } phases)
    (hask : ∀ q phases, I q phases → I q ({.askFilled} + phases))
    (hlogA : ∀ q log phases, A { q with log := log } phases → A q phases)
    (haskA : ∀ q phases, A q ({.askFilled} + phases) → A q phases)
    (hstep : ∀ q spot r q' move others, q.Within (spot.phases + others) →
      I q (spot.phases + others) → q.Passage spot r q' move → A q' (move.phases + others) →
      (spot = .opening .clear → others = 0) → (∀ text, move ≠ .finish (.panicked text)) →
      I q' (move.phases + others))
    {hs : List (Happening (Operation α))}
    (hcalm : ((Traffic.fresh capacity onEnqueue onDequeue log).after Session.machine hs).Calm)
    (hA : (Traffic.fresh capacity onEnqueue onDequeue log).Always Session.machine
      (fun w => A w.shared.queue w.phases) hs) :
    let w := (Traffic.fresh capacity onEnqueue onDequeue log).after Session.machine hs
    I w.shared.queue w.phases := by
  induction hs with
  | nil => exact hfresh
  | cons x hs ih =>
    have hcourse := course_after onEnqueue onDequeue log hpos hmax x hs
    have hwithin := within_after onEnqueue onDequeue log hpos hmax hs
    have hw := sorted_fresh onEnqueue onDequeue log capacity hs
    have hafter := hA.1
    specialize ih (hcalm.before hcourse) hA.2
    simp only [after_cons] at *
    generalize (Traffic.fresh capacity onEnqueue onDequeue log).after Session.machine hs = w at *
    cases hcourse with
    | quiet h =>
      obtain ⟨log', hl⟩ := h.queue_eq
      rw [hl, h.phases_eq hw]
      exact hlog _ _ _ ih
    | @passage t e r q' move hp hs =>
      obtain ⟨log', hl⟩ := hs.queue_eq
      have hmove (text : String) : move ≠ .finish (.panicked text) := by
        rintro rfl
        obtain ⟨stage, entry, hnote⟩ := hp.panicked
        exact hcalm.1 stage entry text (by rw [hl]; exact hnote)
      rw [hs.before hw] at hwithin ih
      refine hs.keeps (I := fun q phases => A q phases → I q phases) hw ?_ ?_ ?_ hafter
      · exact fun q log phases hI hA => hlog q log phases (hI (hlogA q log phases hA))
      · exact fun q phases hI hA => hask q phases (hI (haskA q phases hA))
      · exact fun hA => hstep _ _ _ _ _ _ hwithin ih hp hA hs.alone hmove
    | sprung hr hp hs => exact absurd hs.panicked (hcalm.2 _ _)

/-- The books of a run without panics agree to the last slot, and its queue keeps its capacity. -/
theorem exact_after (hpos : 0 < capacity) (hmax : capacity ≤ Semaphore.maxPermits)
    {hs : List (Happening (Operation α))}
    (hcalm : ((Traffic.fresh capacity onEnqueue onDequeue log).after Session.machine hs).Calm) :
    let w := (Traffic.fresh capacity onEnqueue onDequeue log).after Session.machine hs
    w.shared.queue.Exact w.phases ∧ w.shared.queue.capacity = capacity := by
  refine calm_induction (I := fun q phases => q.Exact phases ∧ q.capacity = capacity)
    (A := fun _ _ => True) hpos hmax ⟨Queue.exact_fresh _ _ _ _, rfl⟩ ?_ ?_ (fun _ _ _ => id)
    (fun _ _ => id) ?_ hcalm (always_of_last (fun _ _ _ => trivial) trivial)
  · rintro q log phases ⟨⟨hb, hp, hfree, hfilled⟩, hcap⟩
    exact ⟨⟨hb, hp, hfree, hfilled⟩, hcap⟩
  · exact fun q phases ⟨h, hcap⟩ => ⟨h.askFilled, hcap⟩
  · intro q spot r q' move others hwithin ⟨h, hcap⟩ hp _ halone hmove
    exact ⟨h.passage hwithin.ringSound hp halone hmove, hp.kept.capacity_eq.trans hcap⟩

/-- **Every permit of a run without panics is accounted for.**  Free permits, filled slots, and the
slots that calls have reserved or emptied make up the capacity; filled permits, and those that calls
hold or owe, make up the filled slots.  Between calls the permits are just the slots. -/
theorem permits_account (hpos : 0 < capacity) (hmax : capacity ≤ Semaphore.maxPermits)
    (hs : List (Happening (Operation α)))
    (hcalm : ((Traffic.fresh capacity onEnqueue onDequeue log).after Session.machine hs).Calm) :
    let w := (Traffic.fresh capacity onEnqueue onDequeue log).after Session.machine hs
    let q := w.shared.queue
    q.free.permits + q.len + carried .freePermit w.phases + carried .vacantSlot w.phases =
        capacity ∧
      q.filled.permits + carried .filledPermit w.phases + carried .filledSlot w.phases = q.len ∧
      q.len ≤ capacity ∧
      ((∀ p ∈ w.phases, p.burden = .nothing) →
        q.free.permits = capacity - q.len ∧ q.filled.permits = q.len) := by
  intro w q
  obtain ⟨hexact, hcap⟩ := exact_after hpos hmax hcalm
  have hfree : q.freeSide w.phases = capacity := hexact.freeSide_eq.trans hcap
  have hfilled : q.filledSide w.phases = q.len := hexact.filledSide_eq
  rw [Queue.freeSide] at hfree
  rw [Queue.filledSide] at hfilled
  refine ⟨hfree, hfilled, by omega, fun hnone => ?_⟩
  obtain ⟨hf, hg⟩ : q.free.permits + q.len = q.capacity ∧ q.filled.permits = q.len :=
    hexact.permits hnone
  have hcap : q.capacity = capacity := hcap
  exact ⟨by omega, hg⟩

end Fresh

/-- One slot, a producer between its push and the filled permit, and a consumer that waits. -/
def halfway : Traffic Nat :=
  (Traffic.fresh 1 none none (.blank none)).after Session.machine
    [.advance 2, .advance 1, .advance 1, .handOut ⟨2, [.perform .dequeue]⟩,
      .handOut ⟨1, [.perform (.enqueue 7)]⟩]

theorem permits_account_halfway :
    0 < 1 ∧ 1 ≤ Semaphore.maxPermits ∧ halfway.Calm ∧
      halfway.shared.queue.filled.permits + carried .filledPermit halfway.phases +
        carried .filledSlot halfway.phases = halfway.shared.queue.len ∧
      carried .filledSlot halfway.phases = 1 := by
  have hcalm : halfway.Calm := calm_of_all (by decide) (by decide)
  have hmax : 1 ≤ Semaphore.maxPermits := by decide
  exact ⟨by decide, hmax, hcalm, (permits_account (by decide) hmax _ hcalm).2.1, by decide⟩

end World

end BoundedQueue
