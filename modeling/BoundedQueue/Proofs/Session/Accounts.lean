import BoundedQueue.Proofs.Session.Chronicle

/-!
# Accounts of items

The chronicle of a task falls into parts, one for each call that it made and one for each operation.
A part says which items were pushed and popped meanwhile, and its last mark how the call or the
operation ended.

## What is here

* `Operation.offered`, `Answer.deposits` and `Answer.items` say what an operation was to put, what
  of it has gone in by its answer, and what the answer hands out.
* `closedParts` and `openPart` take a list of marks apart.  `Balanced` says of the closed parts that
  what was pushed and popped in them is what the operation offered and the answer hands out;
  `Pending` says of the open one that it is what the call stands with, and what an iteration has got
  so far.
* `books_after` says that the accounts of every task are in order after every run, whatever fails or
  panics.  A step is on the account of its task only: marks are set down (`Balanced.noted`), a call
  ends (`Balanced.ended`), and an operation is over or goes on (`Balanced.completed`,
  `Pending.again`).
* `handedIn` and `handedOut` list the items that went in and came out since the ring was emptied,
  with the tasks that put and took them.  `exists_exchanges` pairs them off, and `sublist_itemsOf`
  says that the pairs of two tasks come in the order in which either of them handled the items.

`items_conserved` puts it together for every run.
-/

set_option autoImplicit false

namespace BoundedQueue

variable {α : Type}

/-! ## What operations offer and hand out -/

/-- The items that an operation is to put. -/
def Operation.offered (op : Operation α) : List α := (op.call?.map Call.offered).getD []

theorem Operation.reverse_offered (op : Operation α) : op.offered.reverse = op.offered := by
  cases op <;> rfl

namespace Answer

/-- The items that an operation with this answer has pushed, out of those that it was to put. -/
def deposits (offered : List α) : Answer α → List α
  | done => offered
  | _ => []

/-- The items that an answer hands out, oldest first. -/
def items : Answer α → List α
  | item a => [a]
  | listed as _ => as
  | next (some (.ok a)) => [a]
  | _ => []

/-- The failure that an answer reports. -/
def error? : Answer α → Option Error
  | failed e | refused (.failed e) | listed _ (some e) | next (some (.error e)) => some e
  | _ => none

/-- Whether an answer reports facts only: no item, no failure and no panic. -/
def isIdle : Answer α → Bool
  | done | next none | number _ | flag _ | text _ | texts _ | inUse | noHandle => true
  | listed items failure? => items.isEmpty && failure?.isNone
  | _ => false

/-- Facts are neither items nor failures. -/
theorem nothing_of_isIdle {a : Answer α} (h : a.isIdle = true) :
    a.items = [] ∧ a.error? = none := by
  cases a with
  | listed items failure? =>
    rw [isIdle, Bool.and_eq_true, List.isEmpty_iff, Option.isNone_iff_eq_none] at h
    obtain ⟨rfl, rfl⟩ := h
    exact ⟨rfl, rfl⟩
  | next result? =>
    cases result? with
    | none => exact ⟨rfl, rfl⟩
    | some => cases h
  | done | number | flag | text | texts | inUse | noHandle => exact ⟨rfl, rfl⟩
  | item | drained | failed | refused | panicked => cases h

end Answer

/-- The items that an iteration has got so far, newest first. -/
def Purpose.got : Purpose α → List α
  | gather _ got => got
  | _ => []

namespace Session

variable {s : Session α} {alone : Bool} {op : Operation α} {purpose : Purpose α} {o : Outcome α}
  {a : Answer α}

/-- An iteration begins with nothing. -/
theorem Opens.got_eq {c : Call α} (h : s.Opens alone op purpose c) : purpose.got = [] := by
  cases h <;> rfl

theorem deposits_nil (a : Answer α) : a.deposits [] = [] := by
  cases a <;> rfl

namespace Skips

variable {s' : Session α}

/-- An operation that makes no call has nothing to report but facts. -/
theorem isIdle (h : s.Skips op s' a) : a.isIdle = true := by
  cases h <;> rfl

/-- An operation that makes no call has nothing to do with items. -/
theorem items_eq (h : s.Skips op s' a) : a.items = [] ∧ a.deposits op.offered = [] := by
  refine ⟨(Answer.nothing_of_isIdle h.isIdle).1, ?_⟩
  cases h with
  | noHandle => rfl
  | _ => exact deposits_nil _

end Skips

/-- An operation answers that its item is put if its call did so. -/
theorem deposits_of_conclude (h : (s.conclude o purpose).2 = .finish a) (hs : op.Serves purpose) :
    a.deposits op.offered = o.deposits op.offered := by
  have hnil : o.deposits ([] : List α) = [] := by cases o <;> rfl
  cases hs with
  | enqueue | send => cases o <;> cases h <;> rfl
  | tryEnqueue => cases o <;> cases h <;> rfl
  | _ => exact (deposits_nil a).trans hnil.symm

/-- An operation hands out the items that it got, and that of its last call. -/
theorem items_of_conclude (h : (s.conclude o purpose).2 = .finish a)
    (ha : ∀ text, a ≠ .panicked text) : a.items = purpose.got.reverse ++ o.items := by
  cases purpose with
  | plain | attempt | send | producer | next => cases o <;> cases h <;> rfl
  | drop =>
    cases o with
    | failed e =>
      cases h
      split <;> rfl
    | _ => cases h; rfl
  | gather left got =>
    cases o with
    | item b =>
      cases left with
      | none => cases h
      | some n =>
        by_cases hn : n ≤ 1
        · simp only [conclude, concludeGather, if_pos hn] at h
          cases h
          simp [Answer.items, Purpose.got, Outcome.items]
        · simp only [conclude, concludeGather, if_neg hn] at h
          cases h
    | panicked text => cases h; exact absurd rfl (ha text)
    | done | drained | full | failed =>
      cases h
      exact (List.append_nil _).symm

end Session

/-! ## The parts of a chronicle -/

namespace Mark

/-- The item that was pushed. -/
def pushedItem? (m : Mark α) : Option α := m.note?.bind Note.pushedItem?

/-- The item that was popped. -/
def poppedItem? (m : Mark α) : Option α := m.note?.bind Note.poppedItem?

/-- Whether a mark is the end of a call. -/
def endsCall : Mark α → Bool
  | ended _ _ => true
  | _ => false

/-- Whether a mark is the end of an operation. -/
def endsOperation : Mark α → Bool
  | completed _ _ => true
  | _ => false

end Mark

/-- The items that were pushed according to some marks, newest first. -/
def pushedItems (ms : List (Mark α)) : List α := ms.filterMap Mark.pushedItem?

/-- The items that were popped according to some marks, newest first. -/
def poppedItems (ms : List (Mark α)) : List α := ms.filterMap Mark.poppedItem?

/-- The marks since the latest of those that end something. -/
def openPart (ends : Mark α → Bool) (ms : List (Mark α)) : List (Mark α) :=
  ms.takeWhile fun m => !ends m

/-- The marks that end something, each with those that led up to it. -/
def closedParts (ends : Mark α → Bool) : List (Mark α) → List (Mark α × List (Mark α))
  | [] => []
  | m :: ms =>
    if ends m then (m, openPart ends ms) :: closedParts ends ms else closedParts ends ms

/-- Calls and operations account for their items. -/
structure Balanced (ms : List (Mark α)) : Prop where
  /-- A call that is over has put what it was to put if it ended well, and else nothing.  It has
  popped the item with which it ended. -/
  calls : ∀ op o part, (.ended op o, part) ∈ closedParts Mark.endsCall ms →
    pushedItems part = o.deposits op.offered ∧ poppedItems part = o.items
  /-- So has an operation that is over, but for the items of an iteration that was cut off by a
  panic; these are accounted for by its calls. -/
  operations : ∀ op a part, (.completed op a, part) ∈ closedParts Mark.endsOperation ms →
    pushedItems part = a.deposits op.offered ∧
      ((∀ text, a ≠ .panicked text) → (poppedItems part).reverse = a.items)

/-- What the call and the operation in progress have pushed and popped so far. -/
structure Pending (ms : List (Mark α)) (deposited inHand got : List α) : Prop where
  pushedByCall : pushedItems (openPart Mark.endsCall ms) = deposited
  poppedByCall : poppedItems (openPart Mark.endsCall ms) = inHand
  pushedByOperation : pushedItems (openPart Mark.endsOperation ms) = deposited
  poppedByOperation : poppedItems (openPart Mark.endsOperation ms) = inHand ++ got

section Parts

variable {ends : Mark α → Bool} {m : Mark α} {ms notes : List (Mark α)}

theorem openPart_cons_of_not (h : ends m = false) :
    openPart ends (m :: ms) = m :: openPart ends ms := by
  rw [openPart, List.takeWhile_cons_of_pos (by rw [h]; rfl), openPart]

theorem openPart_cons_of_ends (h : ends m = true) : openPart ends (m :: ms) = [] := by
  rw [openPart, List.takeWhile_cons_of_neg (by rw [h]; decide)]

theorem openPart_append (h : ∀ m ∈ notes, ends m = false) :
    openPart ends (notes ++ ms) = notes ++ openPart ends ms :=
  List.takeWhile_append_of_pos fun m hm => by rw [h m hm]; rfl

theorem closedParts_append (h : ∀ m ∈ notes, ends m = false) :
    closedParts ends (notes ++ ms) = closedParts ends ms := by
  induction notes with
  | nil => rfl
  | cons m notes ih =>
    rw [List.cons_append, closedParts, h m List.mem_cons_self, if_neg Bool.false_ne_true]
    exact ih fun m' hm => h m' (List.mem_cons_of_mem _ hm)

end Parts

section Books

variable {ms : List (Mark α)} {deposited inHand got : List α} {op : Operation α} {o : Outcome α}
  {a : Answer α}

theorem Pending.nil : Pending ([] : List (Mark α)) [] [] [] := ⟨rfl, rfl, rfl, rfl⟩

theorem Balanced.nil : Balanced ([] : List (Mark α)) :=
  ⟨fun _ _ _ h => absurd h List.not_mem_nil, fun _ _ _ h => absurd h List.not_mem_nil⟩

theorem not_ends_of_noted {notes : List (Note α)} {m : Mark α} (h : m ∈ notes.map Mark.noted) :
    m.endsCall = false ∧ m.endsOperation = false := by
  obtain ⟨n, -, rfl⟩ := List.mem_map.1 h
  exact ⟨rfl, rfl⟩

/-- What happens to the queue is on the account of the call in progress. -/
theorem Pending.noted (h : Pending ms deposited inHand got) (notes : List (Note α)) :
    Pending (notes.map .noted ++ ms) (notes.filterMap Note.pushedItem? ++ deposited)
      (notes.filterMap Note.poppedItem? ++ inHand) got := by
  have hpushed : pushedItems (notes.map .noted) = notes.filterMap Note.pushedItem? := by
    rw [pushedItems, List.filterMap_map]; rfl
  have hpopped : poppedItems (notes.map .noted) = notes.filterMap Note.poppedItem? := by
    rw [poppedItems, List.filterMap_map]; rfl
  have hcall : openPart Mark.endsCall (notes.map .noted ++ ms) = _ :=
    openPart_append fun m hm => (not_ends_of_noted hm).1
  have hop : openPart Mark.endsOperation (notes.map .noted ++ ms) = _ :=
    openPart_append fun m hm => (not_ends_of_noted hm).2
  obtain ⟨h₁, h₂, h₃, h₄⟩ := h
  refine ⟨?_, ?_, ?_, ?_⟩
  · rw [hcall, pushedItems, List.filterMap_append, ← h₁, ← hpushed]; rfl
  · rw [hcall, poppedItems, List.filterMap_append, ← h₂, ← hpopped]; rfl
  · rw [hop, pushedItems, List.filterMap_append, ← h₃, ← hpushed]; rfl
  · rw [hop, poppedItems, List.filterMap_append, List.append_assoc, ← h₄, ← hpopped]; rfl

theorem Balanced.noted (h : Balanced ms) (notes : List (Note α)) :
    Balanced (notes.map .noted ++ ms) := by
  obtain ⟨hcalls, hops⟩ := h
  refine ⟨fun op o part hm => hcalls op o part ?_, fun op a part hm => hops op a part ?_⟩
  · rwa [closedParts_append fun m hm => (not_ends_of_noted hm).1] at hm
  · rwa [closedParts_append fun m hm => (not_ends_of_noted hm).2] at hm

/-- A call ends with what it has popped. -/
theorem Balanced.ended (h : Balanced ms) (hp : Pending ms (o.deposits op.offered) o.items got) :
    Balanced (.ended op o :: ms) := by
  refine ⟨fun op' o' part hm => ?_, h.operations⟩
  rcases List.mem_cons.1 hm with hm | hm
  · cases hm
    exact ⟨hp.pushedByCall, hp.poppedByCall⟩
  · exact h.calls op' o' part hm

/-- An iteration that goes on has got one item more. -/
theorem Pending.again {b : α} (h : Pending ms [] [b] got) :
    Pending (.ended op (.item b) :: ms) [] [] (b :: got) :=
  ⟨rfl, rfl, h.pushedByOperation, h.poppedByOperation⟩

/-- An operation ends with what its calls have pushed and popped. -/
theorem Balanced.completed (h : Balanced ms)
    (hpushed : pushedItems (openPart Mark.endsOperation ms) = a.deposits op.offered)
    (hpopped : (∀ text, a ≠ .panicked text) →
      (poppedItems (openPart Mark.endsOperation ms)).reverse = a.items) :
    Balanced (.completed op a :: ms) := by
  refine ⟨h.calls, fun op' a' part hm => ?_⟩
  rcases List.mem_cons.1 hm with hm | hm
  · cases hm
    exact ⟨hpushed, hpopped⟩
  · exact h.operations op' a' part hm

theorem Pending.completed (hpushed : pushedItems (openPart Mark.endsCall ms) = [])
    (hpopped : poppedItems (openPart Mark.endsCall ms) = []) :
    Pending (.completed op a :: ms) [] [] [] := by
  have h : openPart Mark.endsCall (Mark.completed op a :: ms) = _ := openPart_cons_of_not rfl
  exact ⟨by rw [h]; exact hpushed, by rw [h]; exact hpopped, rfl, rfl⟩

end Books

/-! ## The accounts of every run -/

/-- What a task has pushed and popped so far in the operation in which it stands. -/
def Task.Pending (task : Task (Operation α) (Job α)) (ms : List (Mark α)) : Prop :=
  match task.standing with
  | .inside _ job => BoundedQueue.Pending ms job.phase.deposited job.phase.inHand job.purpose.got
  | _ => BoundedQueue.Pending ms [] [] []

theorem Task.pending_iff_of_outside {task : Task (Operation α) (Job α)} {ms : List (Mark α)}
    (h : task.isInside = false) : task.Pending ms ↔ BoundedQueue.Pending ms [] [] [] := by
  obtain ⟨standing, todo⟩ := task
  cases standing with
  | inside => cases h
  | idle | paused => exact Iff.rfl

/-- The marks of a task in a chronicle. -/
def marksOf (t : Int) (c : List (Int × Mark α)) : List (Mark α) :=
  c.filterMap fun e => if e.1 = t then some e.2 else none

theorem marksOf_append (t u : Int) (ms : List (Mark α)) (c : List (Int × Mark α)) :
    marksOf t (ms.map (Prod.mk u) ++ c) = if u = t then ms ++ marksOf t c else marksOf t c := by
  rw [marksOf, List.filterMap_append, List.filterMap_map]
  split
  · next h =>
    have hms : ms.filterMap ((fun e => if e.1 = t then some e.2 else none) ∘ Prod.mk u) = ms := by
      simp only [Function.comp_def, if_pos h]
      exact List.filterMap_some
    rw [hms]; rfl
  · next h =>
    have hms : ms.filterMap ((fun e => if e.1 = t then some e.2 else none) ∘ Prod.mk u) = [] := by
      simp only [Function.comp_def, if_neg h]
      exact List.filterMap_eq_nil_iff.2 fun _ _ => rfl
    rw [hms]; rfl

namespace World

variable {w w' : Traffic α} {t : Int} {e : Engagement α} {ms : List (Mark α)}

theorem Quiet.pending (h : Quiet w w') (hp : (w.tasks.get t).Pending ms) :
    (w'.tasks.get t).Pending ms := by
  rcases h.get_cases t with heq | ⟨hout, hout'⟩
  · rwa [heq]
  · rw [Task.pending_iff_of_outside hout']
    rwa [Task.pending_iff_of_outside hout] at hp

theorem Quiet.outside (h : Quiet w w') (hout : (w.tasks.get t).isInside = false) :
    (w'.tasks.get t).isInside = false := by
  rcases h.get_cases t with heq | ⟨-, hout'⟩
  · rwa [heq]
  · exact hout'

theorem pending_of_engagement (h : w.engagement? t = some e) (hp : (w.tasks.get t).Pending ms) :
    Pending ms e.spot.deposited e.spot.inHand e.purpose.got := by
  cases engaged h with
  | inside ht => rw [ht] at hp; exact hp
  | opens ht ho =>
    rw [ht] at hp
    rw [(Session.opens_of_opening ho).1.got_eq]
    exact hp

theorem stay_of_phases {move : Move (Phase α) Side (Outcome α)} {p : Phase α} (op : Operation α)
    (c : Call α) (h : move.phases = {p}) :
    endMark op move = [] ∧ c.depositedAfter move = p.deposited ∧ move.inHand = p.inHand := by
  cases move with
  | go | wait | signal => cases Multiset.singleton_inj.1 h; exact ⟨rfl, rfl, rfl⟩
  | finish => simp [Move.phases] at h

/-- The accounts of a task are in order after it carried out a section that accounts for its items.
-/
theorem books_landing {q' : Queue α} {move : Move (Phase α) Side (Outcome α)} {c : Call α}
    {notes : List (Note α)} {x : Task (Operation α) (Job α)}
    {new : List (Occurrence (Operation α) (Answer α))} (hw : w.Regular)
    (hs : Stride w w' t e q' move) (hc : e.op.call? = some c) (hx : Landing e move x new)
    (hpushed : notes.filterMap Note.pushedItem? ++ e.spot.deposited = c.depositedAfter move)
    (hpopped : notes.filterMap Note.poppedItem? ++ e.spot.inHand = move.inHand)
    (hb : Balanced ms) (hp : (w.tasks.get t).Pending ms) :
    Balanced (completedMarks new ++ endMark e.op move ++ notes.map .noted ++ ms) ∧
      x.Pending (completedMarks new ++ endMark e.op move ++ notes.map .noted ++ ms) := by
  have hpend := (pending_of_engagement hs.engaged hp).noted notes
  have hbal := hb.noted notes
  rw [hpushed, hpopped] at hpend
  have hoffered : e.op.offered = c.offered := by rw [Operation.offered, hc]; rfl
  cases hx with
  | stay hphases =>
    obtain ⟨hend, hdep, hhand⟩ := stay_of_phases e.op c hphases
    rw [hdep, hhand] at hpend
    rw [hend]
    exact ⟨hbal, hpend⟩
  | @finish s o a ha =>
    rw [Call.depositedAfter, ← hoffered] at hpend
    have hended : Balanced (.ended e.op o :: (notes.map .noted ++ ms)) := hbal.ended hpend
    refine ⟨hended.completed ?_ fun hpanic => ?_, .completed rfl rfl⟩
    · rw [Session.deposits_of_conclude ha (hw.jobs.reaches hs.engaged).2]
      exact hpend.pushedByOperation
    · rw [Session.items_of_conclude ha hpanic]
      refine (congrArg _ hpend.poppedByOperation).trans ?_
      rw [List.reverse_append]
      congr 1
      cases o <;> rfl
  | again hpurpose =>
    rw [hpurpose] at hpend
    exact ⟨hbal.ended hpend, hpend.again⟩

/-- The accounts of a task are in order after its step. -/
theorem books_advance (hw : w.Regular) (hb : Balanced ms)
    (hp : (w.tasks.get t).Pending ms) : Balanced (w.marks t ++ ms) ∧
      ((w.advance Session.machine t).1.tasks.get t).Pending (w.marks t ++ ms) := by
  rcases he : w.engagement? t with - | e
  · obtain ⟨hquiet, new, haside, hnew⟩ := quiet_advance he
    have hp' := hquiet.pending hp
    rw [marks_of_quiet he hnew]
    cases haside with
    | nothing | yielded | unreadable => exact ⟨hb, hp'⟩
    | completed hskips =>
      obtain ⟨hitems, hdeposits⟩ := hskips.items_eq
      have hout := outside_of_engagement he
      have hnone := (Task.pending_iff_of_outside hout).1 hp
      refine ⟨hb.completed (hnone.pushedByOperation.trans hdeposits.symm) fun _ => ?_, ?_⟩
      · rw [hnone.poppedByOperation, hitems]; rfl
      · rw [Task.pending_iff_of_outside (hquiet.outside hout)]
        exact .completed hnone.pushedByCall hnone.poppedByCall
  · obtain ⟨c, q', move, notes, hc, hs, hnotes, hpushed, hpopped⟩ := stride_handling hw he
    obtain ⟨x, new, hx, ht, hnew⟩ := hs.landing
    rw [marks_of_stride hs hnotes hnew, ht, Roster.get_set_self]
    exact books_landing hw hs hc hx hpushed hpopped hb hp

section Fresh

variable {capacity : Nat} (onEnqueue onDequeue : Option (Hook α)) (log : Logbook)

/-- The accounts of every task are in order after every run. -/
theorem books_after (hpos : 0 < capacity) (hmax : capacity ≤ Semaphore.maxPermits)
    (hs : List (Happening (Operation α))) (t : Int) :
    let w := Traffic.fresh capacity onEnqueue onDequeue log
    Balanced (marksOf t (w.chronicle hs)) ∧
      ((w.after Session.machine hs).tasks.get t).Pending (marksOf t (w.chronicle hs)) := by
  intro w
  induction hs with
  | nil => exact ⟨.nil, .nil⟩
  | cons x hs ih =>
    have hw : (w.after Session.machine hs).Regular :=
      regular_after onEnqueue onDequeue log hpos hmax hs
    rw [after_cons]
    cases x with
    | handOut a =>
      rw [chronicle]
      exact ⟨ih.1, (quiet_handOut _ a).pending ih.2⟩
    | advance u =>
      rw [chronicle, marksOf_append, happen]
      split
      · next h =>
        subst h
        exact books_advance hw ih.1 ih.2
      · next h => rw [advance_get_of_ne _ _ _ (Ne.symm h)]; exact ih

/-- Every run is first in, first out. -/
theorem flow_after (hpos : 0 < capacity) (hmax : capacity ≤ Semaphore.maxPermits)
    (hs : List (Happening (Operation α))) :
    ((Traffic.fresh capacity onEnqueue onDequeue log).after Session.machine
      hs).shared.queue.Flow := by
  induction hs with
  | nil => rfl
  | cons x hs ih =>
    have hring := (within_after onEnqueue onDequeue log hpos hmax hs).ringSound
    refine (course_after onEnqueue onDequeue log hpos hmax x hs).keeps (I := fun q _ => q.Flow)
      (sorted_fresh onEnqueue onDequeue log capacity hs) ih (fun _ _ _ => id) (fun _ _ => id)
      (fun _ _ _ _ _ => id) fun spot r q' move others _ _ hp => hp.flow hring ih

end Fresh

end World

/-! ## Who gave what to whom -/

/-- The marks since the ring was emptied, newest first. -/
def recentMarks (c : List (Int × Mark α)) : List (Int × Mark α) :=
  c.takeWhile fun e => !(e.2.note?.elim false Note.isEmptied)

/-- The items that were pushed since the ring was emptied, and by whom, oldest first. -/
def handedIn (c : List (Int × Mark α)) : List (Int × α) :=
  ((recentMarks c).filterMap fun e => e.2.pushedItem?.map (Prod.mk e.1)).reverse

/-- The items that were popped since the ring was emptied, and by whom, oldest first. -/
def handedOut (c : List (Int × Mark α)) : List (Int × α) :=
  ((recentMarks c).filterMap fun e => e.2.poppedItem?.map (Prod.mk e.1)).reverse

/-- The items on a list that are those of a task. -/
def itemsOf (t : Int) (items : List (Int × α)) : List α :=
  (items.filter fun e => e.1 = t).map Prod.snd

/-- An item that one task pushed and one popped. -/
structure Exchange (α : Type) where
  giver : Int
  taker : Int
  item : α

theorem note_recentMarks (c : List (Int × Mark α)) :
    (recentMarks c).filterMap (·.2.note?) = recent (c.filterMap (·.2.note?)) := by
  induction c with
  | nil => rfl
  | cons e c ih =>
    obtain ⟨t, m⟩ := e
    cases m with
    | ended | completed => exact ih
    | noted n =>
      show _ = recent (n :: c.filterMap (·.2.note?))
      rcases hempty : n.isEmptied
      · rw [recentMarks, recent, List.takeWhile_cons_of_pos (by simp [Mark.note?, hempty]),
          List.takeWhile_cons_of_pos (by simp [hempty])]
        exact congrArg _ ih
      · rw [recentMarks, recent, List.takeWhile_cons_of_neg (by simp [Mark.note?, hempty]),
          List.takeWhile_cons_of_neg (by simp [hempty])]
        rfl

/-- Without the names of the tasks, what was handed in is what the history says was pushed. -/
theorem map_handedIn (c : List (Int × Mark α)) : (handedIn c).map Prod.snd =
    ((recent (c.filterMap (·.2.note?))).filterMap Note.pushedItem?).reverse := by
  rw [handedIn, List.map_reverse, List.map_filterMap, ← note_recentMarks, List.filterMap_filterMap]
  congr 2
  funext e
  rw [Option.map_map]
  exact Option.map_id'

theorem map_handedOut (c : List (Int × Mark α)) : (handedOut c).map Prod.snd =
    ((recent (c.filterMap (·.2.note?))).filterMap Note.poppedItem?).reverse := by
  rw [handedOut, List.map_reverse, List.map_filterMap, ← note_recentMarks, List.filterMap_filterMap]
  congr 2
  funext e
  rw [Option.map_map]
  exact Option.map_id'

/-- Of the items, too, those that came in have come out, in the same order, or are still there. -/
theorem Queue.Flow.items {q : Queue α} (h : q.Flow) :
    ((recent q.history).filterMap Note.pushedItem?).reverse =
      ((recent q.history).filterMap Note.poppedItem?).reverse ++
        q.ring.contents.filterMap Entry.item? := by
  have hitems := congrArg (List.filterMap Entry.item?) h
  rw [List.filterMap_append, List.filterMap_filterMap, List.filterMap_filterMap] at hitems
  rw [show (recent q.history).filterMap Note.pushedItem? = _ from hitems, List.reverse_append,
    List.filterMap_reverse, List.reverse_reverse]
  rfl

/-- What came out in the order in which it went in can be paired off with what went in. -/
theorem exists_exchanges {ins outs : List (Int × α)} {rest : List α}
    (h : ins.map Prod.snd = outs.map Prod.snd ++ rest) :
    ∃ exchanges : List (Exchange α), exchanges.map (fun x => (x.taker, x.item)) = outs ∧
      exchanges.map (fun x => (x.giver, x.item)) <+: ins := by
  induction outs generalizing ins with
  | nil => exact ⟨[], rfl, List.nil_prefix⟩
  | cons o outs ih =>
    cases ins with
    | nil => cases h
    | cons i ins =>
      obtain ⟨hitem, hrest⟩ := List.cons.inj h
      obtain ⟨exchanges, htaken, hgiven⟩ := ih hrest
      refine ⟨⟨i.1, o.1, o.2⟩ :: exchanges, congrArg _ htaken, ?_⟩
      rw [List.map_cons, ← hitem]
      exact List.prefix_cons_inj _ |>.2 hgiven

/-- The items of some exchanges of a task come in the order in which the task handled them. -/
theorem sublist_itemsOf {exchanges : List (Exchange α)} {l : List (Int × α)}
    {who : Exchange α → Int} (h : exchanges.map (fun x => (who x, x.item)) <+: l) {t : Int}
    {p : Exchange α → Bool} (hp : ∀ x, p x = true → who x = t) :
    ((exchanges.filter p).map Exchange.item).Sublist (itemsOf t l) := by
  have hsub : ((exchanges.filter fun x => who x = t).map fun x => (who x, x.item)).Sublist
      (l.filter fun e => e.1 = t) := by
    have hfilter := List.Sublist.filter (fun e => decide (e.1 = t)) h.sublist
    rwa [List.filter_map] at hfilter
  have hitems := hsub.map Prod.snd
  rw [List.map_map] at hitems
  refine List.Sublist.trans (List.Sublist.map _ ?_) hitems
  exact List.monotone_filter_right _ fun x hx => decide_eq_true (hp x hx)

namespace World

variable {capacity : Nat} (onEnqueue onDequeue : Option (Hook α)) (log : Logbook)

/-- What came in is what came out, followed by what is in the ring. -/
theorem handedIn_eq (hpos : 0 < capacity) (hmax : capacity ≤ Semaphore.maxPermits)
    (hs : List (Happening (Operation α))) :
    let w := (Traffic.fresh capacity onEnqueue onDequeue log).after Session.machine hs
    let c := (Traffic.fresh capacity onEnqueue onDequeue log).chronicle hs
    (handedIn c).map Prod.snd =
      (handedOut c).map Prod.snd ++ w.shared.queue.ring.contents.filterMap Entry.item? := by
  intro w c
  rw [map_handedIn, map_handedOut, noted_chronicle onEnqueue onDequeue log hpos hmax hs]
  exact (flow_after onEnqueue onDequeue log hpos hmax hs).items

/-- **No item is lost, made up or overtaken**, whatever fails or panics.  The chronicle is complete;
the items that came in since the ring was emptied have come out, in the same order, or are in
the ring; every call and every operation accounts for its items; and items that one task gave
another come out in the order in which it put them. -/
theorem items_conserved (hpos : 0 < capacity) (hmax : capacity ≤ Semaphore.maxPermits)
    (hs : List (Happening (Operation α))) :
    let w := (Traffic.fresh capacity onEnqueue onDequeue log).after Session.machine hs
    let c := (Traffic.fresh capacity onEnqueue onDequeue log).chronicle hs
    c.filterMap (·.2.note?) = w.shared.queue.history ∧
      c.filterMap (fun e => e.2.completed?.map (Prod.mk e.1)) = w.answers ∧
      (handedIn c).map Prod.snd =
        (handedOut c).map Prod.snd ++ w.shared.queue.ring.contents.filterMap Entry.item? ∧
      (∀ t, Balanced (marksOf t c) ∧ (w.tasks.get t).Pending (marksOf t c)) ∧
      ∃ exchanges : List (Exchange α),
        exchanges.map (fun x => (x.taker, x.item)) = handedOut c ∧
        exchanges.map (fun x => (x.giver, x.item)) <+: handedIn c ∧
        ∀ t u, let items := (exchanges.filter fun x => x.giver = t ∧ x.taker = u).map Exchange.item
          items.Sublist (itemsOf t (handedIn c)) ∧ items.Sublist (itemsOf u (handedOut c)) := by
  intro w c
  have hflow := handedIn_eq onEnqueue onDequeue log hpos hmax hs
  obtain ⟨exchanges, htaken, hgiven⟩ := exists_exchanges hflow
  refine ⟨noted_chronicle onEnqueue onDequeue log hpos hmax hs,
    completed_chronicle onEnqueue onDequeue log hpos hmax hs, hflow,
    books_after onEnqueue onDequeue log hpos hmax hs, exchanges, htaken, hgiven,
    fun t u => ⟨?_, ?_⟩⟩
  · exact sublist_itemsOf hgiven fun x hx => (of_decide_eq_true hx).1
  · exact sublist_itemsOf (htaken ▸ List.prefix_rfl) fun x hx => (of_decide_eq_true hx).2

/-- A task hands two items to another, and a third one is left in the ring. -/
def handing : List (Happening (Operation Nat)) :=
  [.advance 1, .advance 1, .advance 1, .advance 1, .advance 2, .advance 2, .advance 2, .advance 2,
    .advance 2, .advance 2, .advance 2, .advance 2, .advance 1, .advance 1, .advance 1, .advance 1,
    .advance 1, .advance 1, .advance 1, .advance 1, .handOut ⟨2, [.perform (.take 2)]⟩,
    .handOut ⟨1, [.perform (.enqueue 5), .perform (.enqueue 6), .perform (.enqueue 7)]⟩]

theorem items_conserved_handing :
    let w := (Traffic.fresh 2 none none (.blank none)).after Session.machine handing
    let c := (Traffic.fresh 2 none none (.blank none)).chronicle handing
    (handedIn c).map Prod.snd =
        (handedOut c).map Prod.snd ++ w.shared.queue.ring.contents.filterMap Entry.item? ∧
      handedOut c = [(2, 5), (2, 6)] ∧ w.shared.queue.ring.contents = [.item 7] :=
  ⟨(items_conserved none none (.blank none) (by decide) (by decide) handing).2.2.1, by decide,
    by decide⟩

end World

end BoundedQueue
