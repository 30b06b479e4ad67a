import BoundedQueue.Proofs.Session.Attempts

/-!
# Reading item by item

An iteration makes one call after the other.  So does a `Reader`: it dequeues for a task, notes the
result, and dequeues again, until it has as many results as it wants, or is told that there is no
item, or is told of a failure.

Let a task be told to iterate in one world, and let a reader dequeue for it in a world that is the
same but for that.  Then one world `Unrolls` the other, whatever happens next: they share the queue
with all that was shown to hooks, noted and logged, every step ends in the same turn, and the answer
to the iteration lists just the results of the reader.

The reader begins its next call as soon as the one before is answered, so that nobody finds the task
outside of operations in between.  Otherwise this is what being told to dequeue comes to:
`advance_dequeuing`.
-/

set_option autoImplicit false

namespace BoundedQueue

variable {α : Type}

/-- The iteration that gives a number of items, or all. -/
def Operation.iteration : Option Nat → Operation α
  | some n => .take n
  | none => .collect

/-- What an iteration gives: its items, and then the failure that ended it. -/
def Answer.results? : Answer α → Option (List (Except Error α))
  | listed items failure? => some (items.map .ok ++ failure?.toList.map .error)
  | _ => none

/-! ## Readers -/

/-- Somebody who dequeues for a task, again and again. -/
structure Reader (α : Type) where
  task : Int
  /-- How many results are wanted, or all. -/
  wanted : Option Nat
  /-- What the task has left to do afterwards. -/
  todo : List (Instruction (Operation α))
  /-- The results so far, newest first. -/
  results : List (Except Error α)
  /-- A call is under way. -/
  reading : Bool

/-- The world in which task `t` is in a call of `dequeue`, about to ask for an item. -/
def World.dequeuing (w : Traffic α) (t : Int) (todo : List (Instruction (Operation α))) :
    Traffic α :=
  w.place t (.inside .dequeue ⟨.plain, .askFilled⟩) todo

/-- The answer that a task was given between two worlds. -/
def World.answer? (t : Int) (before after : Traffic α) : Option (Answer α) :=
  (newSince before.events after.events).findSome? fun e =>
    if e.task = t then e.what.completed?.map Prod.snd else none

namespace Reader

/-- What a reader makes of the answer to its call.  After an item it goes on with the next call,
unless it has all that it wants; after any other answer it is through. -/
def hear (r : Reader α) (w : Traffic α) : Answer α → Reader α × Traffic α
  | .item a =>
    let results := .ok a :: r.results
    if r.wanted = some results.length then ({ r with results := results, reading := false }, w)
    else ({ r with results := results }, w.dequeuing r.task r.todo)
  | .failed e => ({ r with results := .error e :: r.results, reading := false }, w)
  | _ => ({ r with reading := false }, w)

/-- Lets a reader that has a call under way look for the answer. -/
def heed (r : Reader α) (before after : Traffic α) : Reader α × Traffic α :=
  match r.reading, World.answer? r.task before after with
  | true, some a => r.hear after a
  | _, _ => (r, after)

/-- A reader and its world after a run, whose latest happening comes first. -/
def after (r : Reader α) (w : Traffic α) : List (Happening (Operation α)) → Reader α × Traffic α
  | [] => (r, w)
  | x :: hs =>
    let (r', v) := r.after w hs
    r'.heed v (v.happen Session.machine x)

end Reader

/-- A list of reports into which answers of `dequeue` to task `t` were put, newest first. -/
inductive Interspersed (t : Int) : List (Answer α) → List (Event (Operation α) (Answer α)) →
    List (Event (Operation α) (Answer α)) → Prop where
  | same (l : List (Event (Operation α) (Answer α))) : Interspersed t [] l l
  | report {answers : List (Answer α)} {l l' : List (Event (Operation α) (Answer α))}
      (x : Event (Operation α) (Answer α)) (h : Interspersed t answers l l') :
      Interspersed t answers (x :: l) (x :: l')
  | answer {answers : List (Answer α)} {l l' : List (Event (Operation α) (Answer α))}
      (a : Answer α) (h : Interspersed t answers l l') :
      Interspersed t (a :: answers) l (⟨t, .completed .dequeue a⟩ :: l')

theorem Interspersed.append {t : Int} {answers : List (Answer α)}
    {l l' : List (Event (Operation α) (Answer α))} (h : Interspersed t answers l l')
    (new : List (Event (Operation α) (Answer α))) :
    Interspersed t answers (new ++ l) (new ++ l') := by
  induction new with
  | nil => exact h
  | cons x new ih => exact .report x ih

/-! ## What a reader hears -/

section Answers

variable {t u : Int} {before after : Traffic α}

/-- Nobody is answered unless it is reported. -/
theorem World.answer?_eq_none (new : List (Event (Operation α) (Answer α)))
    (h : after.events = new ++ before.events)
    (hnew : ∀ x ∈ new, x.task = t → x.what.completed? = none) :
    World.answer? t before after = none := by
  rw [answer?, h, newSince_append, List.findSome?_eq_none_iff]
  intro x hx
  split
  · next ht => rw [hnew x (List.mem_reverse.1 hx) ht]; rfl
  · rfl

theorem World.answer?_of_same (h : after.events = before.events) :
    World.answer? t before after = none :=
  answer?_eq_none [] h fun _ hx => absurd hx List.not_mem_nil

theorem World.answer?_eq_some (op : Operation α) {a : Answer α}
    (h : after.events = ⟨t, .completed op a⟩ :: before.events) :
    World.answer? t before after = some a := by
  rw [answer?, show newSince before.events after.events = [⟨t, .completed op a⟩] from
    h ▸ newSince_append before.events [_]]
  simp [Occurrence.completed?]

/-- What a step reports is about its task. -/
theorem World.exists_new_advance (w : Traffic α) (u : Int) :
    ∃ new : List (Occurrence (Operation α) (Answer α)),
      (w.advance Session.machine u).1.events = new.map (Event.mk u) ++ w.events := by
  rcases he : w.engagement? u with - | e
  · obtain ⟨-, new, -, hnew⟩ := quiet_advance he
    exact ⟨new, hnew⟩
  · obtain ⟨x, new, -, -, hnew⟩ := (stride_advance he Prod.mk.eta.symm).1.landing
    exact ⟨new, hnew⟩

/-- A step of a task does the same, and reports the same, wherever another task stands and whatever
was reported before. -/
theorem World.exists_advance_elsewhere {w : Traffic α} (hw : w.tasks.Sorted) (h : u ≠ t)
    {standing : Standing (Operation α) (Job α)} {todo : List (Instruction (Operation α))}
    (hinside : Task.isInside ⟨standing, todo⟩ = (w.tasks.get t).isInside) :
    ∃ new : List (Occurrence (Operation α) (Answer α)),
      (w.advance Session.machine u).1.events = new.map (Event.mk u) ++ w.events ∧
      ∀ events, ({ w.place t standing todo with events := events } : Traffic α).advance
          Session.machine u =
        ({ (w.advance Session.machine u).1.place t standing todo with
            events := new.map (Event.mk u) ++ events }, (w.advance Session.machine u).2) := by
  obtain ⟨new, hnew⟩ := w.exists_new_advance u
  obtain ⟨new', hnew', hsame⟩ :=
    (w.place t standing todo).advance_events_eq Session.machine u
  rw [advance_place hw h hinside] at hnew' hsame
  obtain rfl : new' = new.map (Event.mk u) := List.append_cancel_right (hnew'.symm.trans hnew)
  exact ⟨new, hnew, hsame⟩

end Answers

namespace Reader

variable {r : Reader α} {before after : Traffic α}

theorem heed_of_none (h : World.answer? r.task before after = none) :
    r.heed before after = (r, after) := by
  rw [heed, h]
  split
  · next hnone => cases hnone
  · rfl

theorem heed_of_through (h : r.reading = false) : r.heed before after = (r, after) := by
  rw [heed, h]

theorem heed_of_some {a : Answer α} (h : r.reading = true)
    (ha : World.answer? r.task before after = some a) : r.heed before after = r.hear after a := by
  rw [heed, h, ha]

/-- A reader goes on for the same task, with the same aim. -/
theorem hear_same (r : Reader α) (w : Traffic α) (a : Answer α) :
    (r.hear w a).1.task = r.task ∧ (r.hear w a).1.wanted = r.wanted ∧
      (r.hear w a).1.todo = r.todo := by
  cases a with
  | item a => rw [hear]; split <;> exact ⟨rfl, rfl, rfl⟩
  | _ => exact ⟨rfl, rfl, rfl⟩

theorem heed_same (r : Reader α) (before after : Traffic α) :
    (r.heed before after).1.task = r.task ∧ (r.heed before after).1.wanted = r.wanted ∧
      (r.heed before after).1.todo = r.todo := by
  rw [heed]
  split
  · exact r.hear_same _ _
  · exact ⟨rfl, rfl, rfl⟩

theorem after_same (r : Reader α) (w : Traffic α) (hs : List (Happening (Operation α))) :
    (r.after w hs).1.task = r.task ∧ (r.after w hs).1.wanted = r.wanted ∧
      (r.after w hs).1.todo = r.todo := by
  induction hs with
  | nil => exact ⟨rfl, rfl, rfl⟩
  | cons x hs ih =>
    obtain ⟨htask, hwanted, htodo⟩ := heed_same (r.after w hs).1 (r.after w hs).2
      ((r.after w hs).2.happen Session.machine x)
    exact ⟨htask.trans ih.1, hwanted.trans ih.2.1, htodo.trans ih.2.2⟩

theorem after_append (r : Reader α) (w : Traffic α) (hs ks : List (Happening (Operation α))) :
    r.after w (hs ++ ks) = (r.after w ks).1.after (r.after w ks).2 hs := by
  induction hs with
  | nil => rfl
  | cons x hs ih => rw [List.cons_append, after, after, ih]

/-- A reader has got the items of an iteration that wants `left` more, or all. -/
structure Matches (r : Reader α) (left : Option Nat) (got : List α) : Prop where
  reading : r.reading = true
  results_eq : r.results = got.map .ok
  wanted_eq : r.wanted = left.map (· + got.length)
  left_ne : left ≠ some 0

/-- What the answer of an iteration and that of the last call of a reader come to. -/
def Tells (r : Reader α) (a a' : Answer α) : Prop :=
  a.results? = some r.results.reverse ∨ ∃ text, a = .panicked text ∧ a' = .panicked text

/-- **The iteration and the reader draw the same conclusion from a call**: both are through, and the
iteration gives the results of the reader, or both have got another item and go on. -/
theorem Matches.hear {left : Option Nat} {got : List α} (h : r.Matches left got) (s : Session α)
    (v : Traffic α) (o : Outcome α) :
    (∃ a r', s.concludeGather left got o = s.answer a ∧
        r.hear v (Session.plainAnswer o) = (r', v) ∧ r'.task = r.task ∧ r'.reading = false ∧
        r'.Tells a (Session.plainAnswer o)) ∨
      ∃ b left' r', o = .item b ∧
        s.concludeGather left got o = (s, .go ⟨.gather left' (b :: got), .askFilled⟩) ∧
        r.hear v (Session.plainAnswer o) = (r', v.dequeuing r.task r.todo) ∧ r'.task = r.task ∧
        r'.todo = r.todo ∧ r'.Matches left' (b :: got) := by
  obtain ⟨hreading, hresults, hwanted, hleft⟩ := h
  cases o with
  | item b =>
    have hlength : (Except.ok b :: r.results : List (Except Error α)).length = got.length + 1 := by
      rw [hresults, List.length_cons, List.length_map]
    have hcons : Except.ok b :: r.results = (b :: got).map (Except.ok (ε := Error)) := by
      rw [hresults, List.map_cons]
    rcases left with - | n
    · refine .inr ⟨b, none, { r with results := .ok b :: r.results }, rfl, rfl, ?_, rfl, rfl,
        ⟨hreading, hcons, hwanted, nofun⟩⟩
      simp only [Session.plainAnswer, Reader.hear, hwanted, Option.map_none, reduceCtorEq, if_false]
    · have hpos : n ≠ 0 := fun h0 => hleft (congrArg some h0)
      by_cases hn : n ≤ 1
      · obtain rfl : n = 1 := by omega
        refine .inl ⟨.listed (b :: got).reverse none,
          { r with results := .ok b :: r.results, reading := false }, ?_, ?_, rfl, rfl, .inl ?_⟩
        · rw [Session.concludeGather, if_pos hn]
        · have henough : r.wanted = some (Except.ok b :: r.results).length := by
            rw [hwanted, hlength, Option.map_some, Nat.add_comm]
          simp only [Session.plainAnswer, Reader.hear, if_pos henough]
        · simp only [Answer.results?, hcons, List.map_reverse, Option.toList_none, List.map_nil,
            List.append_nil]
      · refine .inr ⟨b, some (n - 1), { r with results := .ok b :: r.results }, rfl, ?_, ?_, rfl,
          rfl, ⟨hreading, hcons, ?_, ?_⟩⟩
        · rw [Session.concludeGather, if_neg hn]
        · have hmore : r.wanted ≠ some (Except.ok b :: r.results).length := by
            rw [hwanted, hlength, Option.map_some, ne_eq, Option.some_inj]
            omega
          simp only [Session.plainAnswer, Reader.hear, if_neg hmore]
        · show r.wanted = _
          rw [hwanted, Option.map_some, Option.map_some, List.length_cons, Option.some_inj]
          omega
        · rw [ne_eq, Option.some_inj]
          omega
  | failed e =>
    refine .inl ⟨.listed got.reverse (some e),
      { r with results := .error e :: r.results, reading := false }, rfl, rfl, rfl, rfl, .inl ?_⟩
    simp [Answer.results?, hresults]
  | panicked text =>
    exact .inl ⟨_, { r with reading := false }, rfl, rfl, rfl, rfl, .inr ⟨text, rfl, rfl⟩⟩
  | done | drained | full =>
    refine .inl ⟨.listed got.reverse none, { r with reading := false }, rfl, rfl, rfl, rfl, .inl ?_⟩
    simp [Answer.results?, hresults]

end Reader

namespace World

/-! ## Side by side -/

/-- Two worlds that are the same, but for the task of a reader: it is iterating in the first one,
and the reader dequeues for it in the second one. -/
inductive Unrolls (op : Operation α) (w : Traffic α) (r : Reader α) (w' : Traffic α) : Prop where
  /-- Both are in a call, and at the same phase of it. -/
  | underway (left : Option Nat) (got : List α) (p : Phase α)
      (events : List (Event (Operation α) (Answer α))) (hr : r.Matches left got)
      (ht : w.tasks.get r.task = ⟨.inside op ⟨.gather left got, p⟩, r.todo⟩)
      (hevents : Interspersed r.task (got.map .item) w.events events)
      (hw' : w' = { w.place r.task (.inside .dequeue ⟨.plain, p⟩) r.todo with events := events })
  /-- Both are through, and only what was answered differs. -/
  | answered (got : List α) (a a' : Answer α)
      (later earlier earlier' : List (Event (Operation α) (Answer α))) (hr : r.reading = false)
      (htells : r.Tells a a') (hevents : w.events = later ++ ⟨r.task, .completed op a⟩ :: earlier)
      (hsame : Interspersed r.task (got.map .item) earlier earlier')
      (hw' : w' = { w with events := later ++ ⟨r.task, .completed .dequeue a'⟩ :: earlier' })

variable {w w' : Traffic α} {r : Reader α} {op : Operation α}

theorem Unrolls.shared_eq (h : Unrolls op w r w') : w'.shared = w.shared := by
  cases h with
  | underway left got p events hr ht hevents hw' => rw [hw']; rfl
  | answered got a a' later earlier earlier' hr htells hevents hsame hw' => rw [hw']

/-- A section comes to the same for the iteration and for the reader. -/
theorem unrolls_settleMove {left : Option Nat} {got : List α} (hr : r.Matches left got)
    {events : List (Event (Operation α) (Answer α))}
    (hevents : Interspersed r.task (got.map .item) w.events events) (op : Operation α)
    (standing : Standing (Operation α) (Job α)) (todo : List (Instruction (Operation α)))
    (q' : Queue α) (move : Move (Phase α) Side (Outcome α)) :
    let v : Traffic α := { w.place r.task standing todo with events := events }
    let w₁ := w.settleMove r.task op r.todo (w.shared.enter (.gather left got) (q', move))
    let w₂ := v.settleMove r.task .dequeue r.todo (w.shared.enter .plain (q', move))
    Unrolls op w₁.1 (r.heed v w₂.1).1 (r.heed v w₂.1).2 ∧ w₂.2 = w₁.2 := by
  intro v w₁ w₂
  -- nobody is answered while the call goes on
  have hgoes (shared : Session α) (next : Phase α) :
      let v' := { v with shared := shared }.place r.task (.inside .dequeue ⟨.plain, next⟩) r.todo
      Unrolls op ({ w with shared := shared }.place r.task (.inside op ⟨.gather left got, next⟩)
        r.todo) (r.heed v v').1 (r.heed v v').2 := by
    intro v'
    have hnone : answer? r.task v v' = none := answer?_of_same rfl
    rw [Reader.heed_of_none hnone]
    refine .underway left got next events hr (Roster.get_set_self _ _ _) hevents ?_
    simp only [v', v, place, Roster.set_set]
  cases move with
  | go next => exact ⟨hgoes _ next, rfl⟩
  | wait on retry => exact ⟨hgoes _ retry, rfl⟩
  | signal on next => exact ⟨hgoes _ next, rfl⟩
  | finish o =>
    have hheed : r.heed v w₂.1 = r.hear w₂.1 (Session.plainAnswer o) :=
      Reader.heed_of_some hr.reading (answer?_eq_some .dequeue rfl)
    have hw₁ : w₁ = w.settleMove r.task op r.todo
      (Session.concludeGather ⟨q', w.shared.handles⟩ left got o) := rfl
    rw [hheed]
    rcases hr.hear ⟨q', w.shared.handles⟩ w₂.1 o with
      ⟨a, r', hgather, hhear, htask, hthrough, htells⟩ |
      ⟨b, left', r', rfl, hgather, hhear, htask, htodo, hmatches⟩
    · rw [hhear, hw₁, hgather]
      refine ⟨.answered got a _ [] w.events events hthrough htells (by rw [htask]; rfl)
        (htask ▸ hevents) ?_, rfl⟩
      rw [htask]
      simp only [w₂, v, settleMove, Session.enter, Session.conclude, Session.answer, place, report,
        Roster.set_set, List.nil_append]
    · rw [hhear, hw₁, hgather]
      refine ⟨.underway left' (b :: got) .askFilled
        (⟨r.task, .completed .dequeue (.item b)⟩ :: events) hmatches ?_ ?_ ?_, rfl⟩
      · rw [htask, htodo]
        exact Roster.get_set_self _ _ _
      · rw [htask]
        exact hevents.answer (.item b)
      · rw [htask, htodo]
        simp only [w₂, v, dequeuing, settleMove, Session.enter, Session.conclude, Session.answer,
          Session.plainAnswer, place, report, Roster.set_set]

/-- **A step comes to the same for the iteration and for the reader**, whichever task takes it, and
ends in the same turn. -/
theorem Unrolls.advance (hw : w.tasks.Sorted) (h : Unrolls op w r w') (u : Int) :
    let v := (w'.advance Session.machine u).1
    Unrolls op (w.advance Session.machine u).1 (r.heed w' v).1 (r.heed w' v).2 ∧
      (w'.advance Session.machine u).2 = (w.advance Session.machine u).2 := by
  intro v
  cases h with
  | underway left got p events hr ht hevents hw' =>
    by_cases hu : u = r.task
    · subst hu
      have hget : w'.tasks.get r.task = ⟨.inside .dequeue ⟨.plain, p⟩, r.todo⟩ := by
        rw [hw']
        exact Roster.get_set_self _ _ _
      simp only [v]
      rw [advance_of_inside _ ht, advance_of_inside _ hget, hw']
      exact unrolls_settleMove hr hevents op _ r.todo _ _
    · have hinside : (⟨.inside .dequeue ⟨.plain, p⟩, r.todo⟩ :
          Task (Operation α) (Job α)).isInside = (w.tasks.get r.task).isInside := by rw [ht]; rfl
      obtain ⟨new, hnew, hsame⟩ := exists_advance_elsewhere hw hu hinside
      have hstep := hsame events
      rw [← hw'] at hstep
      have hnone : answer? r.task w' v = none := by
        refine answer?_eq_none (new.map (Event.mk u)) ?_ fun x hx ht => ?_
        · rw [show v = _ from congrArg Prod.fst hstep, hw']
        · obtain ⟨what, -, rfl⟩ := List.mem_map.1 hx
          exact absurd ht hu
      rw [Reader.heed_of_none hnone, hstep, show v = _ from congrArg Prod.fst hstep]
      refine ⟨.underway left got p _ hr ?_ ?_ rfl, rfl⟩
      · rw [advance_get_of_ne _ w u (Ne.symm hu), ht]
      · rw [hnew]
        exact hevents.append _
  | answered got a a' later earlier earlier' hr htells hevents hsame hw' =>
    obtain ⟨new, hnew, hstep⟩ := w.advance_events_eq Session.machine u
    rw [Reader.heed_of_through hr]
    simp only [v]
    rw [hw', hstep (later ++ _)]
    refine ⟨.answered got a a' (new ++ later) earlier earlier' hr htells ?_ hsame ?_, rfl⟩
    · rw [hnew, hevents, List.append_assoc]
    · rw [List.append_assoc]

theorem Unrolls.handOut (h : Unrolls op w r w') (x : Assignment (Operation α)) :
    Unrolls op (w.handOut x) (r.heed w' (w'.handOut x)).1 (r.heed w' (w'.handOut x)).2 := by
  cases h with
  | underway left got p events hr ht hevents hw' =>
    have hbusy : (w.tasks.get r.task).isUnfinished = true := by rw [ht]; rfl
    have hnone : answer? r.task w' (w'.handOut x) = none := by
      rcases w'.handOut_events x with heq | heq
      · exact answer?_of_same heq
      · refine answer?_eq_none [_] heq fun y hy _ => ?_
        rw [List.mem_singleton.1 hy]
        rfl
    obtain ⟨new, hnew, hsame⟩ := (w.place r.task (.inside .dequeue ⟨.plain, p⟩)
      r.todo).handOut_events_eq x
    rw [handOut_place hbusy rfl] at hnew hsame
    rw [Reader.heed_of_none hnone, hw', hsame events]
    refine .underway left got p _ hr ?_ ?_ rfl
    · rcases w.handOut_tasks x with heq | ⟨hfree, heq⟩
      · rw [heq, ht]
      · rw [heq, Roster.get_set, if_neg, ht]
        intro htask
        rw [htask, hfree] at hbusy
        cases hbusy
    · rw [show (w.handOut x).events = new ++ w.events from hnew]
      exact hevents.append new
  | answered got a a' later earlier earlier' hr htells hevents hsame hw' =>
    obtain ⟨new, hnew, hstep⟩ := w.handOut_events_eq x
    rw [Reader.heed_of_through hr, hw', hstep (later ++ _)]
    refine .answered got a a' (new ++ later) earlier earlier' hr htells ?_ hsame ?_
    · rw [hnew, hevents, List.append_assoc]
    · rw [List.append_assoc]

/-- **An iteration comes to what a reader does, whatever happens.** -/
theorem Unrolls.after (hw : w.tasks.Sorted) (h : Unrolls op w r w')
    (hs : List (Happening (Operation α))) :
    Unrolls op (w.after Session.machine hs) (r.after w' hs).1 (r.after w' hs).2 := by
  induction hs with
  | nil => exact h
  | cons x hs ih =>
    rw [after_cons, Reader.after]
    cases x with
    | advance u => exact (ih.advance (sorted_after hw hs) u).1
    | handOut x => exact ih.handOut x

/-- **The two make the same calls**: one of the iteration ends in the next step just if one of the
reader does, and with the same outcome. -/
theorem Unrolls.ending?_iff (h : Unrolls op w r w') (hr : r.reading = true) (o : Outcome α) :
    w.ending? r.task = some (.ended op o) ↔ w'.ending? r.task = some (.ended .dequeue o) := by
  have hshared := h.shared_eq
  cases h with
  | underway left got p events _ ht hevents hw' =>
    have hget : w'.tasks.get r.task = ⟨.inside .dequeue ⟨.plain, p⟩, r.todo⟩ := by
      rw [hw']
      exact Roster.get_set_self _ _ _
    have he : w.engagement? r.task = some ⟨op, .gather left got, .phase p, r.todo⟩ := by
      rw [engagement?, ht]
    have he' : w'.engagement? r.task = some ⟨.dequeue, .plain, .phase p, r.todo⟩ := by
      rw [engagement?, hget]
    rw [ending?, ending?, he, he', hshared, Option.bind_some, Option.bind_some]
    cases (w.shared.queue.sectionAt (.phase p)).2 <;> simp
  | answered got a a' later earlier earlier' hthrough => cases hr.symm.trans hthrough

/-! ## The first call -/

/-- To be at the beginning of a call of `dequeue` is to be told to make one. -/
theorem advance_dequeuing (w : Traffic α) (t : Int) (todo : List (Instruction (Operation α))) :
    (w.dequeuing t todo).advance Session.machine t =
      (w.told t .dequeue todo).advance Session.machine t := by
  have hget : (w.dequeuing t todo).tasks.get t = ⟨.inside .dequeue ⟨.plain, .askFilled⟩, todo⟩ :=
    Roster.get_set_self _ _ _
  have htold : w.dequeuing t todo =
      (w.told t .dequeue todo).place t (.inside .dequeue ⟨.plain, .askFilled⟩) todo := by
    rw [dequeuing, told, place_place]
  obtain ⟨alone, hadv⟩ := w.advance_told t .dequeue todo
  rw [hadv, advance_of_inside _ hget, htold]
  show World.settleMove _ t _ todo (w.shared.enter .plain w.shared.queue.takeFilled) =
    World.settleMove _ t _ todo (w.shared.enter .plain w.shared.queue.takeFilled)
  obtain ⟨q', move⟩ := w.shared.queue.takeFilled
  cases move <;> simp only [settleMove, Session.enter, Session.conclude, Session.answer, place,
    report, Roster.set_set]

/-- An iteration opens with a call of `dequeue`, unless it is to give nothing. -/
theorem start_iteration {wanted : Option Nat} (hwanted : wanted ≠ some 0) (s : Session α)
    (alone : Bool) :
    s.start alone (.iteration wanted) = s.call (.gather wanted []) .dequeue := by
  cases wanted with
  | none => rfl
  | some n => exact if_neg fun h0 => hwanted (congrArg some h0)

/-- **The first step comes to the same for the iteration and for the reader.** -/
theorem unrolls_told (w : Traffic α) (t : Int) {wanted : Option Nat} (hwanted : wanted ≠ some 0)
    (todo : List (Instruction (Operation α))) :
    let r : Reader α := ⟨t, wanted, todo, [], true⟩
    let w₁ := w.told t (.iteration wanted) todo
    let v := w.told t .dequeue todo
    let v' := (v.advance Session.machine t).1
    Unrolls (.iteration wanted) (w₁.advance Session.machine t).1 (r.heed v v').1 (r.heed v v').2 ∧
      (v.advance Session.machine t).2 = (w₁.advance Session.machine t).2 := by
  intro r w₁ v v'
  have hr : r.Matches wanted [] := by
    refine ⟨rfl, rfl, ?_, hwanted⟩
    cases wanted <;> rfl
  have hv : v = { w₁.place t .idle (.perform .dequeue :: todo) with events := w₁.events } := by
    simp only [v, w₁, told, place, Roster.set_set]
  obtain ⟨alone, hadv⟩ := w.advance_told t (.iteration wanted) todo
  obtain ⟨alone', hadv'⟩ := w.advance_told t .dequeue todo
  rw [start_iteration hwanted, Session.call] at hadv
  rw [Session.start, Session.call] at hadv'
  rcases hsec : w.shared.queue.begin .dequeue with ⟨q', move⟩
  rw [hsec] at hadv hadv'
  have hsettled := unrolls_settleMove hr (.same w₁.events) (.iteration wanted) .idle
    (.perform .dequeue :: todo) q' move
  rw [← hv] at hsettled
  simp only [v', v, w₁, hadv, hadv']
  exact hsettled

end World

/-! ## In line -/

namespace Reader

/-- One turn of the first task in line, after which a reader looks for the answer to its call. -/
def tick (r : Reader α) (s : Case.Tasks α) : Reader α × Case.Tasks α :=
  let s' := s.tick Session.machine
  let (r', v) := r.heed s.world s'.world
  (r', { s' with world := v })

/-- A number of turns. -/
def turns (r : Reader α) (s : Case.Tasks α) : Nat → Reader α × Case.Tasks α
  | 0 => (r, s)
  | n + 1 =>
    let (r', s') := r.turns s n
    r'.tick s'

/-- Two run queues of which one has an iteration and the other one a reader, with the same tasks in
line and waiting. -/
structure InLine (op : Operation α) (s : Case.Tasks α) (r : Reader α) (s' : Case.Tasks α) :
    Prop where
  world : World.Unrolls op s.world r s'.world
  ready_eq : s'.ready = s.ready
  waiting_eq : s'.waiting = s.waiting
  wake_eq : s'.wake = s.wake

namespace InLine

variable {op : Operation α} {s s' : Case.Tasks α} {r : Reader α} {u : Int}

/-- A turn of the task at the head wakes the same task, and leaves the same tasks in line. -/
theorem of_ready {rest : List Int} {w' : Traffic α} (hready : s.ready = u :: rest)
    (hworld : World.Unrolls op (s.world.advance Session.machine u).1
      (r.heed w' (w'.advance Session.machine u).1).1 (r.heed w' (w'.advance Session.machine u).1).2)
    (hturn : (w'.advance Session.machine u).2 = (s.world.advance Session.machine u).2) :
    InLine op (s.tick Session.machine) (r.tick { s with world := w' }).1
      (r.tick { s with world := w' }).2 := by
  have hready' : ({ s with world := w' } : Case.Tasks α).ready = u :: rest := hready
  rw [Reader.tick, RunQueue.tick_of_ready _ hready, RunQueue.tick_of_ready _ hready', hturn,
    s.requeue_withWorld (s.world.advance Session.machine u).1,
    s.requeue_withWorld (w'.advance Session.machine u).1]
  exact ⟨hworld, rfl, rfl, rfl⟩

theorem tick (hw : s.world.tasks.Sorted) (h : InLine op s r s') :
    InLine op (s.tick Session.machine) (r.tick s').1 (r.tick s').2 := by
  rcases hready : s.ready with - | ⟨u, rest⟩
  · have hidle : r.heed s'.world s'.world = (r, s'.world) :=
      heed_of_none (World.answer?_of_same rfl)
    rw [Reader.tick, RunQueue.tick_of_nil _ hready,
      RunQueue.tick_of_nil _ (h.ready_eq.trans hready), hidle]
    exact h
  · obtain ⟨w', ready, waiting, wake⟩ := s'
    obtain ⟨hunrolls, rfl, rfl, rfl⟩ := h
    obtain ⟨hworld, hturn⟩ := hunrolls.advance hw u
    exact of_ready hready hworld hturn

end InLine

end Reader

namespace World

variable {w : Traffic α} {wanted : Option Nat}

/-- **The run queue treats the iteration and the reader alike.** -/
theorem inLine_turns (hw : w.tasks.Sorted) (hwanted : wanted ≠ some 0) (t : Int)
    (todo : List (Instruction (Operation α))) (rest : List Int) (waiting : List (Side × Int))
    (wake : Wake) (n : Nat) :
    let s : Case.Tasks α := ⟨w.told t (.iteration wanted) todo, t :: rest, waiting, wake⟩
    let s' : Case.Tasks α := ⟨w.told t .dequeue todo, t :: rest, waiting, wake⟩
    let r : Reader α := ⟨t, wanted, todo, [], true⟩
    Reader.InLine (.iteration wanted) ((RunQueue.tick Session.machine)^[n + 1] s)
      (r.turns s' (n + 1)).1 (r.turns s' (n + 1)).2 := by
  intro s s' r
  induction n with
  | zero =>
    obtain ⟨hworld, hturn⟩ := w.unrolls_told t hwanted todo
    show Reader.InLine _ (s.tick Session.machine) (r.tick s').1 (r.tick s').2
    exact .of_ready (s := s) rfl hworld hturn
  | succ n ih =>
    have hsorted : (((RunQueue.tick Session.machine)^[n + 1] s).world.tasks).Sorted :=
      RunQueue.world_iterate (Q := fun v => v.tasks.Sorted)
        (fun _ u hv => sorted_advance hv u) (hw.set t _) (n + 1)
    rw [Function.iterate_succ_apply']
    exact ih.tick hsorted

end World

end BoundedQueue
