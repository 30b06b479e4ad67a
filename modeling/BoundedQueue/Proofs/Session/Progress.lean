import BoundedQueue.Proofs.Schedule.Order
import BoundedQueue.Proofs.Session.Chronicle

/-!
# The progress of tasks

A stride carries on with the operation in which its task stands, or begins the next one; at its end
the task is still in the operation, or has been given an answer.  A step that is no stride neither
begins nor answers anything, as long as tasks are only told to do what takes a call
(`Operation.isCalling`).

* `answersTo` lists the answers that were given to a task, and to what.  No answer is taken back
  (`answers_mono`), and a task has finished just what was answered to it.
* `assigned_of_engagement` says that an engaged task is in the first operation that it has not
  finished, or is about to begin it.
* `Stride.begun_self` and `Stride.answered` say what a stride adds to the operations that its task
  has begun, and to its answers.
* `exists_progress` puts these together: every step is idle, or a passage of which it is known whose
  it is, what it begins, and what is answered.
-/

set_option autoImplicit false

namespace BoundedQueue

variable {α : Type}

/-- Whether an operation makes a call, whatever the state of the session. -/
def Operation.isCalling : Operation α → Bool
  | enqueue _ | tryEnqueue _ | dequeue | collect | register | deregister | install _ _ => true
  | _ => false

theorem Session.Skips.not_isCalling {s s' : Session α} {op : Operation α} {a : Answer α}
    (h : s.Skips op s' a) : op.isCalling = false := by
  cases h with
  | @noHandle op _ hname => cases op <;> trivial
  | _ => rfl

/-- The operation that a task is in before a section; at its opening, none. -/
def Engagement.current (e : Engagement α) : List (Operation α) :=
  match e.spot with
  | .opening _ => []
  | .phase _ => [e.op]

namespace World

variable {w w' : Traffic α} {t u : Int} {e : Engagement α} {q' : Queue α}
  {move : Move (Phase α) Side (Outcome α)}

/-! ## Answers -/

/-- The answers that were given to a task, and to what, newest first. -/
def answersTo (w : Traffic α) (t : Int) : List (Operation α × Answer α) :=
  w.answers.filterMap fun x => if x.1 = t then some x.2 else none

theorem mem_answersTo {x : Operation α × Answer α} : x ∈ w.answersTo t ↔ (t, x) ∈ w.answers := by
  rw [answersTo, List.mem_filterMap]
  constructor
  · rintro ⟨⟨u, y⟩, hy, h⟩
    split at h
    · next hu => cases h; exact hu ▸ hy
    · cases h
  · exact fun h => ⟨_, h, if_pos rfl⟩

/-- A task has finished just what was answered to it. -/
theorem finished_eq_answersTo (w : Traffic α) (t : Int) :
    w.finished t = ((w.answersTo t).map Prod.fst).reverse := by
  rw [finished, answersTo, answers, List.filterMap_filterMap, List.map_filterMap]
  congr 2
  funext x
  obtain ⟨u, what⟩ := x
  cases what with
  | completed op a => by_cases h : u = t <;> simp [h, Occurrence.op?, Occurrence.completed?]
  | yielded | unreadable | busy => simp [Occurrence.op?, Occurrence.completed?]

/-- No answer is taken back. -/
theorem answers_mono (m : Machine (Session α) (Operation α) (Job α) Side (Answer α))
    (w : Traffic α) (hs : List (Happening (Operation α))) :
    ∃ new, (w.after m hs).answers = new ++ w.answers := by
  induction hs with
  | nil => exact ⟨[], rfl⟩
  | cons x hs ih =>
    obtain ⟨new, h⟩ := happen_events m (w.after m hs) x
    obtain ⟨new', h'⟩ := ih
    exact ⟨_, by rw [after_cons, answers, h, List.filterMap_append, ← answers, h',
      ← List.append_assoc]⟩

/-! ## Engagements -/

theorem begun_of_engagement (h : w.engagement? t = some e) :
    w.begun t = w.finished t ++ e.current := by
  rw [begun]
  cases engaged h with
  | inside ht | opens ht => rw [ht]; rfl

/-- An engaged task is in the first operation that it has not finished, or is about to begin it. -/
theorem assigned_of_engagement (h : w.engagement? t = some e) :
    w.assigned t = w.finished t ++ e.op :: e.todo.filterMap Instruction.op? := by
  rw [assigned, begun, List.append_assoc]
  cases engaged h with
  | inside ht | opens ht => rw [ht]; rfl

/-- A task that is not engaged and does not move has nothing to do. -/
theorem free_of_no_engagement (h : w.engagement? t = none)
    (hturn : (w.advance Session.machine t).2 = .idle ∨
      ∃ on, (w.advance Session.machine t).2 = .blocked on) : w.tasks.get t = .free := by
  have hsteps := sidesteps h
  generalize w.advance Session.machine t = step at hsteps hturn
  cases hsteps with
  | rests ht => exact ht
  | yields | goesOn | misreads | skips =>
    rcases hturn with hturn | ⟨on, hturn⟩
    · cases hturn
    · cases hturn

/-! ## Strides -/

/-- After a stride the task is in its operation, or is through with it. -/
theorem Stride.begun_self (h : Stride w w' t e q' move) : w'.begun t = w.finished t ++ [e.op] := by
  obtain ⟨x, new, hx, ht, he⟩ := h.landing
  rw [begun, finished_self new he, ht, Roster.get_set_self]
  cases hx with
  | stay | again => rw [List.filterMap_nil, List.reverse_nil, List.append_nil]; rfl
  | finish => exact List.append_nil _

theorem Stride.begun_of_ne (h : Stride w w' t e q' move) (hu : u ≠ t) :
    w'.begun u = w.begun u := by
  obtain ⟨x, new, -, ht, he⟩ := h.landing
  rw [begun, begun, finished_of_ne new he hu, ht, Roster.get_set_of_ne _ _ hu]

/-- The operation is over if the call is, unless it is an iteration that has got an item. -/
theorem Stride.answered (h : Stride w w' t e q' move) :
    w'.answers = w.answers ∧ (∀ o, move = .finish o → ∃ b, o = .item b) ∨
      ∃ s o a, move = .finish o ∧ (Session.conclude s o e.purpose).2 = .finish a ∧
        w'.answers = (t, e.op, a) :: w.answers := by
  obtain ⟨x, new, hx, -, he⟩ := h.landing
  cases hx with
  | stay hp =>
    refine .inl ⟨by rw [answers, he]; rfl, fun o ho => ?_⟩
    subst ho
    simp [Move.phases] at hp
  | @again left left' got b =>
    exact .inl ⟨by rw [answers, he]; rfl, fun o ho => ⟨b, by cases ho; rfl⟩⟩
  | finish ha => exact .inr ⟨_, _, _, rfl, ha, by rw [answers, he]; rfl⟩

/-! ## Other steps -/

/-- A step that is no stride, and answers nothing. -/
structure Idle (w w' : Traffic α) : Prop where
  quiet : Quiet w w'
  answers_eq : w'.answers = w.answers

theorem Quiet.current_eq (h : Quiet w w') (u : Int) :
    (w'.tasks.get u).current = (w.tasks.get u).current := by
  rcases h.get_cases u with heq | ⟨hout, hout'⟩
  · rw [heq]
  · rw [Task.current_of_outside hout, Task.current_of_outside hout']

namespace Idle

theorem finished_eq (h : Idle w w') (u : Int) : w'.finished u = w.finished u := by
  rw [finished_eq_answersTo, finished_eq_answersTo, answersTo, answersTo, h.answers_eq]

theorem begun_eq (h : Idle w w') (u : Int) : w'.begun u = w.begun u := by
  rw [begun, begun, h.finished_eq, h.quiet.current_eq]

end Idle

theorem idle_handOut (w : Traffic α) (a : Assignment (Operation α)) : Idle w (w.handOut a) := by
  refine ⟨quiet_handOut w a, ?_⟩
  rw [answers, answers]
  rcases handOut_events a with h | h
  · rw [h]
  · rw [h]; rfl

/-- A task that is only told to do what takes a call answers nothing without one. -/
theorem idle_advance (h : w.engagement? t = none)
    (hops : ∀ op ∈ (w.advance Session.machine t).1.begun t, op.isCalling = true) :
    Idle w (w.advance Session.machine t).1 := by
  obtain ⟨hquiet, new, haside, hnew⟩ := quiet_advance h
  refine ⟨hquiet, ?_⟩
  cases haside with
  | nothing | yielded | unreadable => rw [answers, hnew]; rfl
  | @completed op s' a hskips =>
    have hop : op ∈ (w.advance Session.machine t).1.begun t := by
      rw [begun, finished_self _ hnew]
      exact List.mem_append_left _ (List.mem_append_right _ List.mem_cons_self)
    cases hskips.not_isCalling.symm.trans (hops op hop)

/-- **Every step is idle or a passage**, as long as tasks are only told to do what takes a call and
the logger does not panic. -/
theorem exists_progress (hw : w.Regular) (x : Happening (Operation α))
    (hops : ∀ t, ∀ op ∈ (w.happen Session.machine x).begun t, op.isCalling = true)
    (hcalm : (w.happen Session.machine x).LoggerCalm) :
    Idle w (w.happen Session.machine x) ∨
      ∃ t e r q' move, w.shared.queue.Passage e.spot r q' move ∧
        Stride w (w.happen Session.machine x) t e q' move := by
  cases x with
  | handOut a => exact .inl (idle_handOut w a)
  | advance t =>
    rcases he : w.engagement? t with - | e
    · exact .inl (idle_advance he (hops t))
    · obtain ⟨r, q', move, hp, hsec⟩ := exists_passage hw.sorted hw.within he
      rcases q'.remarked_cases move r with ⟨log, hr⟩ | ⟨log, b, p, hne, hr⟩
      · obtain ⟨⟨-, hmove, ⟨log', hlog⟩, hland⟩, -⟩ := stride_advance he (hsec.trans hr)
        exact .inr ⟨t, e, r, q', move, hp, he, hmove, ⟨log', hlog⟩, hland⟩
      · exact absurd (stride_advance he (hsec.trans hr)).1.panicked (hcalm _ _)

end World

end BoundedQueue
