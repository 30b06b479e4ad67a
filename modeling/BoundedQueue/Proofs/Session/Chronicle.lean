import BoundedQueue.Proofs.Queue.Flow
import BoundedQueue.Proofs.Session.Jobs

/-!
# The chronicle of a run

The history of a queue does not say who did what.  The chronicle of a run does: for every step it
sets down what the section of the task did to the queue, which call it ended, and which operation
was over.

* A `Mark` is one entry of the chronicle, and `World.marks` are those of the next step of a task.
  They are a function of the world alone: nobody has to keep a chronicle for it to exist.
* `marks_of_stride` and `marks_of_quiet` say what is set down about the two kinds of steps.
* `stride_handling` carries the accounts of items over from passages to steps.  It also covers a
  panic of the logger, at which a call has no item in hand.
* `noted_chronicle` and `completed_chronicle` say that nothing is left out and nothing made up: what
  the chronicle says of the queue is its history, and its answers are those that were reported.
-/

set_option autoImplicit false

namespace BoundedQueue

variable {α : Type}

/-- What is set down about a task. -/
inductive Mark (α : Type) where
  /-- It did something to the queue. -/
  | noted (n : Note α)
  /-- A call that its operation made is over. -/
  | ended (op : Operation α) (o : Outcome α)
  /-- Its operation is over. -/
  | completed (op : Operation α) (a : Answer α)

/-- An operation and its answer. -/
def Occurrence.completed? : Occurrence (Operation α) (Answer α) → Option (Operation α × Answer α)
  | completed op a => some (op, a)
  | _ => none

namespace Mark

def note? : Mark α → Option (Note α)
  | noted n => some n
  | _ => none

def completed? : Mark α → Option (Operation α × Answer α)
  | completed op a => some (op, a)
  | _ => none

end Mark

namespace World

/-- The end of a call in the next step of a task, if it ends one. -/
def ending? (w : Traffic α) (t : Int) : Option (Mark α) :=
  (w.engagement? t).bind fun e =>
    match (w.shared.queue.sectionAt e.spot).2 with
    | .finish o => some (.ended e.op o)
    | _ => none

/-- What is set down about the next step of a task, newest first. -/
def marks (w : Traffic α) (t : Int) : List (Mark α) :=
  let w' := (w.advance Session.machine t).1
  (newSince w.events w'.events).reverse.filterMap
      (fun e => e.what.completed?.map fun (op, a) => .completed op a) ++
    (w.ending? t).toList ++
    (newSince w.shared.queue.history w'.shared.queue.history).reverse.map .noted

/-- What is set down about the tasks in a run, newest first. -/
def chronicle (w : Traffic α) : List (Happening (Operation α)) → List (Int × Mark α)
  | [] => []
  | .advance t :: hs => ((w.after Session.machine hs).marks t).map (Prod.mk t) ++ w.chronicle hs
  | .handOut _ :: hs => w.chronicle hs

theorem chronicle_append (w : Traffic α) (hs ks : List (Happening (Operation α))) :
    w.chronicle (hs ++ ks) = (w.after Session.machine ks).chronicle hs ++ w.chronicle ks := by
  induction hs with
  | nil => rfl
  | cons x hs ih =>
    cases x with
    | advance t =>
      rw [List.cons_append, chronicle, chronicle, ih, after_append, List.append_assoc]
    | handOut a => exact ih

variable {w : Traffic α} {t : Int} {e : Engagement α}

/-- The mark of the end of a call, if a section ends it. -/
def endMark (op : Operation α) : Move (Phase α) Side (Outcome α) → List (Mark α)
  | .finish o => [.ended op o]
  | _ => []

/-- The marks of operations that are over. -/
def completedMarks (new : List (Occurrence (Operation α) (Answer α))) : List (Mark α) :=
  (new.filterMap Occurrence.completed?).map fun (op, a) => .completed op a

/-- What is set down about a step that carries out a section. -/
theorem marks_of_stride {q' : Queue α} {move : Move (Phase α) Side (Outcome α)}
    {notes : List (Note α)} {new : List (Occurrence (Operation α) (Answer α))}
    (hs : Stride w (w.advance Session.machine t).1 t e q' move)
    (hn : q'.history = notes ++ w.shared.queue.history)
    (he : (w.advance Session.machine t).1.events = new.map (Event.mk t) ++ w.events) :
    w.marks t = completedMarks new ++ endMark e.op move ++ notes.map .noted := by
  have hnotes : (w.advance Session.machine t).1.shared.queue.history =
      notes ++ w.shared.queue.history := by
    obtain ⟨log, hlog⟩ := hs.queue_eq
    rw [hlog]
    exact hn
  have hend : (w.ending? t).toList = endMark e.op move := by
    rw [ending?, hs.engaged, Option.bind_some, hs.section_eq]
    cases move <;> rfl
  rw [marks, hnotes, he, newSince_append, newSince_append, List.reverse_reverse,
    List.reverse_reverse, hend, List.filterMap_map, completedMarks, List.map_filterMap]
  rfl

/-- Of a step that carries out no section, only what is reported is set down. -/
theorem marks_of_quiet {new : List (Occurrence (Operation α) (Answer α))}
    (h : w.engagement? t = none)
    (he : (w.advance Session.machine t).1.events = new.map (Event.mk t) ++ w.events) :
    w.marks t = completedMarks new := by
  obtain ⟨log, hlog⟩ := (quiet_advance h).1.queue_eq
  rw [marks, he, hlog, newSince_append, ending?, h, List.reverse_reverse, List.filterMap_map,
    completedMarks, List.map_filterMap]
  simp only [newSince, Option.bind_none, Option.toList_none, Nat.sub_self, List.take_zero,
    List.reverse_nil, List.map_nil, List.append_nil]
  rfl

/-- A task that carries out a section accounts for the items that it handles, also when the logger
panics. -/
theorem stride_handling (hw : w.Regular) (he : w.engagement? t = some e) :
    ∃ c q' move notes, e.op.call? = some c ∧
      Stride w (w.advance Session.machine t).1 t e q' move ∧
      Queue.Handling w.shared.queue q' c e.spot move notes := by
  obtain ⟨⟨c, hc, hreach⟩, -⟩ := hw.jobs.reaches he
  obtain ⟨r, q', move, hp, hsec⟩ := exists_passage hw.sorted hw.within he
  obtain ⟨notes, hnotes, hpushed, hpopped⟩ := hp.handling hreach
  rcases q'.remarked_cases move r with ⟨log, hr⟩ | ⟨log, b, p, hne, hr⟩
  · exact ⟨c, _, move, notes, hc, (stride_advance he (hsec.trans hr)).1, hnotes, hpushed, hpopped⟩
  · obtain ⟨hdeposited, hhand⟩ := hp.nothing_of_remark hne hreach
    exact ⟨c, _, _, notes, hc, (stride_advance he (hsec.trans hr)).1, hnotes,
      hpushed.trans hdeposited, hpopped.trans hhand⟩

/-! ## The chronicle is complete -/

theorem note_completedMarks (new : List (Occurrence (Operation α) (Answer α))) :
    (completedMarks new).filterMap Mark.note? = [] := by
  rw [completedMarks, List.filterMap_map, List.filterMap_eq_nil_iff]
  exact fun _ _ => rfl

theorem note_endMark (op : Operation α) (move : Move (Phase α) Side (Outcome α)) :
    (endMark op move).filterMap Mark.note? = [] := by
  cases move <;> rfl

theorem note_noted (notes : List (Note α)) :
    (notes.map Mark.noted).filterMap Mark.note? = notes := by
  rw [List.filterMap_map]
  exact List.filterMap_some

theorem mem_noted {ms : List (Mark α)} {n : Note α} :
    .noted n ∈ ms ↔ n ∈ ms.filterMap Mark.note? := by
  rw [List.mem_filterMap]
  constructor
  · exact fun h => ⟨_, h, rfl⟩
  · rintro ⟨m, hm, hn⟩
    cases m with
    | noted n' => cases hn; exact hm
    | ended | completed => cases hn

theorem completed_completedMarks (new : List (Occurrence (Operation α) (Answer α))) :
    (completedMarks new).filterMap Mark.completed? = new.filterMap Occurrence.completed? := by
  rw [completedMarks, List.filterMap_map]
  exact List.filterMap_some

/-- What is noted in a step is noted by its section. -/
theorem exists_engagement_of_noted {n : Note α} (hm : .noted n ∈ w.marks t) :
    ∃ e, w.engagement? t = some e := by
  rcases he : w.engagement? t with - | e
  · obtain ⟨-, new, -, hnew⟩ := quiet_advance he
    rw [marks_of_quiet he hnew, mem_noted, note_completedMarks] at hm
    cases hm
  · exact ⟨e, rfl⟩

/-- The marks of a step hold what is new in the history. -/
theorem noted_marks (hw : w.Regular) (t : Int) :
    (w.advance Session.machine t).1.shared.queue.history =
      (w.marks t).filterMap Mark.note? ++ w.shared.queue.history := by
  rcases he : w.engagement? t with - | e
  · obtain ⟨hquiet, new, -, hnew⟩ := quiet_advance he
    rw [marks_of_quiet he hnew, note_completedMarks, hquiet.history_eq]
    rfl
  · obtain ⟨c, q', move, notes, -, hs, hnotes, -, -⟩ := stride_handling hw he
    obtain ⟨x, new, -, -, hnew⟩ := hs.landing
    obtain ⟨log, hlog⟩ := hs.queue_eq
    rw [marks_of_stride hs hnotes hnew, List.filterMap_append, List.filterMap_append,
      note_completedMarks, note_endMark, note_noted, hlog]
    exact hnotes

/-- The answers that were given, and to whom, newest first. -/
def answers (w : Traffic α) : List (Int × Operation α × Answer α) :=
  w.events.filterMap fun e => e.what.completed?.map (Prod.mk e.task)

/-- The marks of a step hold the answers that are new. -/
theorem answers_marks (hw : w.Regular) (t : Int) :
    (w.advance Session.machine t).1.answers =
      ((w.marks t).filterMap Mark.completed?).map (Prod.mk t) ++ w.answers := by
  have hsplit {new : List (Occurrence (Operation α) (Answer α))}
      (hnew : (w.advance Session.machine t).1.events = new.map (Event.mk t) ++ w.events) :
      (w.advance Session.machine t).1.answers =
        (new.filterMap Occurrence.completed?).map (Prod.mk t) ++ w.answers := by
    rw [answers, hnew, List.filterMap_append, List.filterMap_map, List.map_filterMap]
    rfl
  rcases he : w.engagement? t with - | e
  · obtain ⟨-, new, -, hnew⟩ := quiet_advance he
    rw [marks_of_quiet he hnew, completed_completedMarks, hsplit hnew]
  · obtain ⟨c, q', move, notes, -, hs, hnotes, -, -⟩ := stride_handling hw he
    obtain ⟨x, new, -, -, hnew⟩ := hs.landing
    have hend : (endMark e.op move).filterMap Mark.completed? = [] := by cases move <;> rfl
    have hnoted : (notes.map Mark.noted).filterMap (Mark.completed? (α := α)) = [] := by
      rw [List.filterMap_map, List.filterMap_eq_nil_iff]
      exact fun _ _ => rfl
    rw [marks_of_stride hs hnotes hnew, List.filterMap_append, List.filterMap_append,
      completed_completedMarks, hend, hnoted, List.append_nil, List.append_nil, hsplit hnew]

section Fresh

variable {capacity : Nat} (onEnqueue onDequeue : Option (Hook α)) (log : Logbook)

/-- What the chronicle says of the queue is the history of the queue. -/
theorem noted_chronicle (hpos : 0 < capacity) (hmax : capacity ≤ Semaphore.maxPermits)
    (hs : List (Happening (Operation α))) :
    ((Traffic.fresh capacity onEnqueue onDequeue log).chronicle hs).filterMap (·.2.note?) =
      ((Traffic.fresh capacity onEnqueue onDequeue log).after Session.machine
        hs).shared.queue.history := by
  induction hs with
  | nil => rfl
  | cons x hs ih =>
    rw [after_cons]
    cases x with
    | handOut a => rw [happen, (quiet_handOut _ a).history_eq]; exact ih
    | advance t =>
      rw [chronicle, List.filterMap_append, List.filterMap_map, ih]
      exact (noted_marks (regular_after onEnqueue onDequeue log hpos hmax hs) t).symm

/-- The answers in the chronicle are those that were reported. -/
theorem completed_chronicle (hpos : 0 < capacity) (hmax : capacity ≤ Semaphore.maxPermits)
    (hs : List (Happening (Operation α))) :
    ((Traffic.fresh capacity onEnqueue onDequeue log).chronicle hs).filterMap
        (fun e => e.2.completed?.map (Prod.mk e.1)) =
      ((Traffic.fresh capacity onEnqueue onDequeue log).after Session.machine hs).answers := by
  induction hs with
  | nil => rfl
  | cons x hs ih =>
    rw [after_cons]
    cases x with
    | handOut a =>
      rw [chronicle, ih, happen, answers, answers]
      rcases handOut_events a with h | h <;> rw [h]
      rfl
    | advance t =>
      rw [chronicle, List.filterMap_append, List.filterMap_map, ih, happen,
        answers_marks (regular_after onEnqueue onDequeue log hpos hmax hs), List.map_filterMap]
      rfl

end Fresh

end World

end BoundedQueue
