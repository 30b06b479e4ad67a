import BoundedQueue.Proofs.Queue.Passage
import BoundedQueue.Proofs.Schedule.Run
import BoundedQueue.Proofs.Session.Opening

/-!
# The steps of a world of tasks on a queue

In a world of tasks on a queue, `World.phases` is the collection of the phases of all calls in
progress.  Most of what is proved about a queue is about it and these phases, whichever tasks the
calls belong to.  What a step of a task does to them is settled here, once and for all.

## What is here

* `World.engagement?` is the section of a call that a task carries out next, if it carries one out.
  `World.Engaged` lists where such a section comes from: the task is inside an operation, or is
  about to begin one that opens with a call.
* A step of an engaged task is a `Stride`: the queue changes as the section says, other calls stay
  where they are, and the task lands where the move of the section leads (`Landing`).
  `World.stride_advance` is the lemma that every proof about a section of a task begins with.
* `World.Sidesteps` lists what a task does that is not engaged: it rests, yields, goes on, finds an
  instruction unreadable, or is through with an operation that makes no call.  What the last one
  comes to is said by `Session.Skips`.
* Such a step is `Quiet`, as is handing out work: the queue is left alone but for its log, and every
  call stays where it was.  `Aside` is what may be reported meanwhile.

So a step has two forms, and a proof about steps has two cases.  Neither of them looks into
`World.advance`, nor into `Session.start` or `Session.conclude`.
-/

set_option autoImplicit false

namespace BoundedQueue

variable {α : Type}

/-! ## After a call -/

namespace Session

/-- What follows from a call changes at most the log. -/
theorem conclude_queue (s : Session α) (o : Outcome α) (purpose : Purpose α) :
    ∃ log, (s.conclude o purpose).1.queue = { s.queue with log := log } := by
  cases purpose with
  | plain | attempt | send => exact ⟨_, rfl⟩
  | producer => cases o <;> exact ⟨_, rfl⟩
  | drop => cases o <;> exact ⟨_, rfl⟩
  | next => cases o <;> exact ⟨_, rfl⟩
  | gather left got =>
    cases o with
    | item b =>
      cases left with
      | none => exact ⟨_, rfl⟩
      | some n =>
        by_cases hn : n ≤ 1 <;> simp [conclude, concludeGather, hn, answer] <;> exact ⟨_, rfl⟩
    | done | drained | full | failed | panicked => exact ⟨_, rfl⟩

/-- After a call the operation is over, or is an iteration that has got an item and wants more. -/
theorem conclude_move (s : Session α) (o : Outcome α) (purpose : Purpose α) :
    (∃ a, (s.conclude o purpose).2 = .finish a) ∨
      ∃ left left' got b, purpose = .gather left got ∧ o = .item b ∧
        left'.isSome = left.isSome ∧
        (s.conclude o purpose).2 = .go ⟨.gather left' (b :: got), .askFilled⟩ := by
  cases purpose with
  | plain | attempt | send => exact .inl ⟨_, rfl⟩
  | producer => cases o <;> exact .inl ⟨_, rfl⟩
  | drop => cases o <;> exact .inl ⟨_, rfl⟩
  | next => cases o <;> exact .inl ⟨_, rfl⟩
  | gather left got =>
    cases o with
    | item b =>
      cases left with
      | none => exact .inr ⟨none, none, got, b, rfl, rfl, rfl, rfl⟩
      | some n =>
        by_cases hn : n ≤ 1
        · exact .inl ⟨_, by simp only [conclude, concludeGather, if_pos hn]; rfl⟩
        · exact .inr ⟨some n, some (n - 1), got, b, rfl, rfl, rfl,
            by simp only [conclude, concludeGather, if_neg hn]⟩
    | done | drained | full | failed | panicked => exact .inl ⟨_, rfl⟩

/-- A panic of a call is one of the operation. -/
theorem conclude_panicked (s : Session α) (text : String) (purpose : Purpose α) :
    (s.conclude (.panicked text) purpose).2 = .finish (.panicked text) := by
  cases purpose <;> rfl

end Session

/-! ## Worlds of tasks on a queue -/

/-- A world of tasks on a queue. -/
abbrev Traffic (α : Type) : Type := World (Session α) (Operation α) (Job α) (Answer α)

/-- The phase of the call that a task is in, if it is in one. -/
def Task.phases (task : Task (Operation α) (Job α)) : Multiset (Phase α) :=
  match task.standing with
  | .inside _ job => {job.phase}
  | _ => 0

/-- What a task did that carried out a section. -/
def Move.turn {κ ι ρ : Type} : Move κ ι ρ → Turn ι
  | .go _ => .ran
  | .wait on _ => .blocked on
  | .signal on _ => .signalled on
  | .finish _ => .ran

/-- The section of a call that a task carries out next, and what the call is made for. -/
structure Engagement (α : Type) where
  op : Operation α
  purpose : Purpose α
  spot : Spot α
  /-- What the task has left to do after the operation. -/
  todo : List (Instruction (Operation α))

/-- What an operation does to the handles before the section, which is nothing if it has begun. -/
def Engagement.claim (e : Engagement α) (handles : Handles) : Handles :=
  match e.spot with
  | .opening _ => e.op.claim handles
  | .phase _ => handles

namespace World

/-- The phases of all calls in progress. -/
def phases (w : Traffic α) : Multiset (Phase α) := w.tasks.total Task.phases

/-- The section that a task carries out next, if it carries one out. -/
def engagement? (w : Traffic α) (t : Int) : Option (Engagement α) :=
  match w.tasks.get t with
  | ⟨.inside op job, todo⟩ => some ⟨op, job.purpose, .phase job.phase, todo⟩
  | ⟨.idle, .perform op :: todo⟩ =>
    (w.shared.opening (w.tasks.othersOutside t) op).map fun (purpose, c) =>
      ⟨op, purpose, .opening c, todo⟩
  | _ => none

variable {w : Traffic α} {t : Int} {e : Engagement α}

/-- Where a section that is carried out next comes from: the task is inside an operation, or is
about to begin one. -/
inductive Engaged (w : Traffic α) (t : Int) : Engagement α → Prop where
  | inside {op : Operation α} {job : Job α} {todo : List (Instruction (Operation α))}
      (ht : w.tasks.get t = ⟨.inside op job, todo⟩) :
      Engaged w t ⟨op, job.purpose, .phase job.phase, todo⟩
  | opens {op : Operation α} {purpose : Purpose α} {c : Call α}
      {todo : List (Instruction (Operation α))}
      (ht : w.tasks.get t = ⟨.idle, .perform op :: todo⟩)
      (ho : w.shared.opening (w.tasks.othersOutside t) op = some (purpose, c)) :
      Engaged w t ⟨op, purpose, .opening c, todo⟩

theorem engaged (h : w.engagement? t = some e) : w.Engaged t e := by
  unfold engagement? at h
  split at h
  · next ht => cases h; exact .inside ht
  · next ht =>
    obtain ⟨⟨purpose, c⟩, ho, rfl⟩ := Option.map_eq_some_iff.1 h
    exact .opens ht ho
  · cases h

theorem advance_eq_of_engagement (h : w.engagement? t = some e) :
    w.advance Session.machine t = w.settleMove t e.op e.todo
      (Session.enter ⟨w.shared.queue, e.claim w.shared.handles⟩ e.purpose
        (w.shared.queue.sectionAt e.spot)) := by
  cases engaged h with
  | inside ht => exact advance_of_inside _ ht
  | opens ht ho =>
    rw [advance_of_perform _ ht]
    exact congrArg _ (Session.opens_of_opening ho).2

theorem advance_of_engagement (h : w.engagement? t = some e) :
    ∃ handles, w.advance Session.machine t = w.settleMove t e.op e.todo
      (Session.enter ⟨w.shared.queue, handles⟩ e.purpose (w.shared.queue.sectionAt e.spot)) :=
  ⟨_, advance_eq_of_engagement h⟩

/-- The call of an engaged task is at the spot of the engagement. -/
theorem phases_get_of_engagement (h : w.engagement? t = some e) :
    (w.tasks.get t).phases = e.spot.phases := by
  cases engaged h with
  | inside ht | opens ht => rw [ht]; rfl

theorem phases_of_engagement (hw : w.tasks.Sorted) (h : w.engagement? t = some e) :
    w.phases = e.spot.phases + (w.tasks.others t).total Task.phases := by
  rw [phases, Roster.total_eq hw rfl t, phases_get_of_engagement h]

/-- A call that clears is the only one in progress. -/
theorem alone_of_engagement (h : w.engagement? t = some e) (hc : e.spot = .opening .clear) :
    (w.tasks.others t).total (Task.phases (α := α)) = 0 := by
  cases engaged h with
  | inside => cases hc
  | opens ht ho =>
    cases hc
    refine Roster.total_eq_zero fun d hd => ?_
    have hout := Roster.isInside_of_mem_others (Session.opens_of_opening ho).1.alone_of_clear hd
    obtain ⟨u, standing, todo⟩ := d
    cases standing with
    | inside => cases hout
    | idle | paused => rfl

/-! ## Quiet steps -/

/-- A step after which the queue is the same but for its log, and every call where it was: it is
about a task that is in no call before and afterwards. -/
structure Quiet (w w' : Traffic α) : Prop where
  queue_eq : ∃ log, w'.shared.queue = { w.shared.queue with log := log }
  tasks_eq : w'.tasks = w.tasks ∨ ∃ t x, (w.tasks.get t).isInside = false ∧
    x.isInside = false ∧ w'.tasks = w.tasks.set t x

theorem phases_of_outside {x : Task (Operation α) (Job α)} (h : x.isInside = false) :
    x.phases = 0 := by
  obtain ⟨standing, todo⟩ := x
  cases standing with
  | inside => cases h
  | idle | paused => rfl

theorem Quiet.phases_eq {w' : Traffic α} (hw : w.tasks.Sorted) (h : Quiet w w') :
    w'.phases = w.phases := by
  rcases h.tasks_eq with ht | ⟨t, x, hout, hx, ht⟩
  · rw [phases, ht]; rfl
  · rw [phases, phases, ht, Roster.total_set hw rfl, Roster.total_eq hw rfl t,
      phases_of_outside hout, phases_of_outside hx]

/-- A quiet step leaves every task as it is, or in no call as before. -/
theorem Quiet.get_cases {w' : Traffic α} (h : Quiet w w') (u : Int) :
    w'.tasks.get u = w.tasks.get u ∨
      (w.tasks.get u).isInside = false ∧ (w'.tasks.get u).isInside = false := by
  rcases h.tasks_eq with ht | ⟨t, x, hout, hx, ht⟩
  · exact .inl (by rw [ht])
  · rw [ht, Roster.get_set]
    split
    · next hu => exact .inr ⟨hu ▸ hout, hx⟩
    · exact .inl rfl

/-- Who is in a call after a quiet step was there before. -/
theorem Quiet.get_of_inside {w' : Traffic α} {u : Int} {op : Operation α} {job : Job α}
    {todo : List (Instruction (Operation α))} (h : Quiet w w')
    (hu : w'.tasks.get u = ⟨.inside op job, todo⟩) : w.tasks.get u = ⟨.inside op job, todo⟩ := by
  rcases h.get_cases u with heq | ⟨-, hout⟩
  · exact heq.symm.trans hu
  · rw [hu] at hout
    cases hout

theorem quiet_handOut (w : Traffic α) (a : Assignment (Operation α)) : Quiet w (w.handOut a) := by
  refine ⟨⟨w.shared.queue.log, by rw [handOut_shared]⟩, ?_⟩
  rcases w.handOut_tasks a with ht | ⟨hfree, ht⟩
  · exact .inl ht
  · exact .inr ⟨a.task, _, by rw [hfree]; rfl, rfl, ht⟩

/-- What a task does that carries out no section, and the turn in which its step ends. -/
inductive Sidesteps (w : Traffic α) (t : Int) : Traffic α × Turn Side → Prop where
  | rests (ht : w.tasks.get t = ⟨.idle, []⟩) : Sidesteps w t (w, .idle)
  | yields {todo : List (Instruction (Operation α))}
      (ht : w.tasks.get t = ⟨.idle, .yield :: todo⟩) :
      Sidesteps w t (w.place t .paused todo, .yielded)
  | goesOn {todo : List (Instruction (Operation α))} (ht : w.tasks.get t = ⟨.paused, todo⟩) :
      Sidesteps w t ((w.place t .idle todo).report t .yielded, .ran)
  | misreads {name : Option String} {fault : String} {todo : List (Instruction (Operation α))}
      (ht : w.tasks.get t = ⟨.idle, .unreadable name fault :: todo⟩) :
      Sidesteps w t ((w.place t .idle todo).report t (.unreadable name fault), .ran)
  | skips {op : Operation α} {s : Session α} {a : Answer α}
      {todo : List (Instruction (Operation α))}
      (ht : w.tasks.get t = ⟨.idle, .perform op :: todo⟩) (h : w.shared.Skips op s a) :
      Sidesteps w t
        ((({ w with shared := s } : Traffic α).place t .idle todo).report t (.completed op a), .ran)

/-- **A task that is not engaged sidesteps the queue.** -/
theorem sidesteps (h : w.engagement? t = none) : w.Sidesteps t (w.advance Session.machine t) := by
  unfold engagement? at h
  rcases hx : w.tasks.get t with ⟨standing, todo⟩
  rw [hx] at h
  cases standing with
  | inside op job => cases h
  | paused => rw [advance_of_paused _ hx]; exact .goesOn hx
  | idle =>
    cases todo with
    | nil => rw [advance_of_nil _ hx]; exact .rests hx
    | cons i todo =>
      cases i with
      | yield => rw [advance_of_yield _ hx]; exact .yields hx
      | unreadable name fault => rw [advance_of_unreadable _ hx]; exact .misreads hx
      | perform op =>
        obtain ⟨s, a, hs, hskips⟩ := Session.skips_of_opening (Option.map_eq_none_iff.1 h)
        rw [advance_of_perform _ hx, show Session.machine.start _ op w.shared = _ from hs]
        exact .skips hx hskips

theorem outside_of_engagement (h : w.engagement? t = none) : (w.tasks.get t).isInside = false := by
  have hsteps := sidesteps h
  generalize w.advance Session.machine t = step at hsteps
  cases hsteps with
  | rests ht | yields ht | goesOn ht | misreads ht | skips ht => rw [ht]; rfl

/-- What is reported about a task that carries out no section. -/
inductive Aside (s : Session α) : List (Occurrence (Operation α) (Answer α)) → Prop where
  | nothing : Aside s []
  | yielded : Aside s [.yielded]
  | unreadable (name : Option String) (fault : String) : Aside s [.unreadable name fault]
  /-- The task is through with an operation that makes no call. -/
  | completed {op : Operation α} {s' : Session α} {a : Answer α} (h : s.Skips op s' a) :
      Aside s [.completed op a]

theorem quiet_advance (h : w.engagement? t = none) :
    Quiet w (w.advance Session.machine t).1 ∧ ∃ new, Aside w.shared new ∧
      (w.advance Session.machine t).1.events = new.map (Event.mk t) ++ w.events := by
  have hout := outside_of_engagement h
  have hsteps := sidesteps h
  generalize w.advance Session.machine t = step at hsteps
  cases hsteps with
  | rests => exact ⟨⟨⟨_, rfl⟩, .inl rfl⟩, _, .nothing, rfl⟩
  | yields => exact ⟨⟨⟨_, rfl⟩, .inr ⟨t, _, hout, rfl, rfl⟩⟩, _, .nothing, rfl⟩
  | goesOn => exact ⟨⟨⟨_, rfl⟩, .inr ⟨t, _, hout, rfl, rfl⟩⟩, _, .yielded, rfl⟩
  | misreads => exact ⟨⟨⟨_, rfl⟩, .inr ⟨t, _, hout, rfl, rfl⟩⟩, _, .unreadable _ _, rfl⟩
  | skips _ hskips =>
    exact ⟨⟨hskips.exists_log, .inr ⟨t, _, hout, rfl, rfl⟩⟩, _, .completed hskips, rfl⟩

/-! ## Strides -/

/-- Where a section leaves the task that carries it out, and what is reported about the task. -/
inductive Landing (e : Engagement α) : Move (Phase α) Side (Outcome α) →
    Task (Operation α) (Job α) → List (Occurrence (Operation α) (Answer α)) → Prop where
  /-- The call goes on. -/
  | stay {move : Move (Phase α) Side (Outcome α)} {p : Phase α} (h : move.phases = {p}) :
      Landing e move ⟨.inside e.op ⟨e.purpose, p⟩, e.todo⟩ []
  /-- The call is over, and so is the operation. -/
  | finish {s : Session α} {o : Outcome α} {a : Answer α}
      (h : (s.conclude o e.purpose).2 = .finish a) :
      Landing e (.finish o) ⟨.idle, e.todo⟩ [.completed e.op a]
  /-- The call has got an item for an iteration, which goes on to the next call at once. -/
  | again {left left' : Option Nat} {got : List α} {b : α} (hp : e.purpose = .gather left got)
      (hl : left'.isSome = left.isSome) :
      Landing e (.finish (.item b)) ⟨.inside e.op ⟨.gather left' (b :: got), .askFilled⟩, e.todo⟩ []

/-- A panic of a call is reported as one of its operation. -/
theorem Landing.new_of_panicked {text : String} {x : Task (Operation α) (Job α)}
    {new : List (Occurrence (Operation α) (Answer α))}
    (h : Landing e (.finish (.panicked text)) x new) :
    new = [.completed e.op (.panicked text)] := by
  generalize hm : Move.finish (Outcome.panicked text) = move at h
  cases h with
  | stay hp => subst hm; simp [Move.phases] at hp
  | @finish s o a ha =>
    cases hm
    rw [Session.conclude_panicked] at ha
    cases ha
    rfl
  | again => cases hm

/-- A step in which task `t` carries out the section of an engagement.  The section leaves the
queue `q'` but for its log, and ends in `move`. -/
structure Stride (w w' : Traffic α) (t : Int) (e : Engagement α) (q' : Queue α)
    (move : Move (Phase α) Side (Outcome α)) : Prop where
  engaged : w.engagement? t = some e
  section_eq : (w.shared.queue.sectionAt e.spot).2 = move
  queue_eq : ∃ log, w'.shared.queue = { q' with log := log }
  landing : ∃ x new, Landing e move x new ∧ w'.tasks = w.tasks.set t x ∧
    w'.events = new.map (Event.mk t) ++ w.events

variable {w' : Traffic α} {q' : Queue α} {move : Move (Phase α) Side (Outcome α)}

theorem stride_advance (h : w.engagement? t = some e)
    (hs : w.shared.queue.sectionAt e.spot = (q', move)) :
    Stride w (w.advance Session.machine t).1 t e q' move ∧
      (w.advance Session.machine t).2 = move.turn := by
  obtain ⟨handles, hadv⟩ := advance_of_engagement h
  have hsec := congrArg Prod.snd hs
  rw [hadv, hs]
  cases move with
  | go | wait | signal => exact ⟨⟨h, hsec, ⟨_, rfl⟩, _, _, .stay rfl, rfl, rfl⟩, rfl⟩
  | finish o =>
    have hqueue := Session.conclude_queue ⟨q', handles⟩ o e.purpose
    rw [Session.enter]
    rcases Session.conclude_move ⟨q', handles⟩ o e.purpose with
      ⟨a, ha⟩ | ⟨left, left', got, b, hp, rfl, hl, ha⟩
    · have hland : Landing e (.finish o) _ _ := .finish ha
      rcases hmv : Session.conclude ⟨q', handles⟩ o e.purpose with ⟨s', move'⟩
      rw [hmv] at ha hqueue
      cases ha
      exact ⟨⟨h, hsec, hqueue, _, _, hland, rfl, rfl⟩, rfl⟩
    · rcases hmv : Session.conclude ⟨q', handles⟩ (.item b) e.purpose with ⟨s', move'⟩
      rw [hmv] at ha hqueue
      cases ha
      exact ⟨⟨h, hsec, hqueue, _, _, .again hp hl, rfl, rfl⟩, rfl⟩

namespace Stride

/-- The phases of the calls of all tasks but one. -/
abbrev others (w : Traffic α) (t : Int) : Multiset (Phase α) := (w.tasks.others t).total Task.phases

theorem before (h : Stride w w' t e q' move) (hw : w.tasks.Sorted) :
    w.phases = e.spot.phases + others w t :=
  phases_of_engagement hw h.engaged

theorem alone (h : Stride w w' t e q' move) (he : e.spot = .opening .clear) : others w t = 0 :=
  alone_of_engagement h.engaged he

/-- Afterwards the call of the task is where the section left it, or is one that asks for the next
item of an iteration. -/
theorem after (h : Stride w w' t e q' move) (hw : w.tasks.Sorted) :
    w'.phases = move.phases + others w t ∨
      (∃ a, move = .finish (.item a)) ∧ w'.phases = {.askFilled} + others w t := by
  obtain ⟨x, new, hx, ht, -⟩ := h.landing
  have hset : w'.phases = x.phases + others w t := by rw [phases, ht, Roster.total_set hw rfl]
  cases hx with
  | stay hp => exact .inl (by rw [hset, hp]; rfl)
  | finish => exact .inl hset
  | again => exact .inr ⟨⟨_, rfl⟩, hset⟩

theorem panicked {text : String} (h : Stride w w' t e q' (.finish (.panicked text))) :
    ⟨t, .completed e.op (.panicked text)⟩ ∈ w'.events := by
  obtain ⟨x, new, hx, -, he⟩ := h.landing
  rw [he, hx.new_of_panicked]
  exact List.mem_cons_self

end Stride

end World

end BoundedQueue
