import BoundedQueue.Proofs.Session.Handles
import BoundedQueue.Proofs.Session.Reading

/-!
# Iteration

`iteration_unrolls` says that an iteration is the same as dequeuing item by item, and that iterators
are fused.

* `ItemByItem` compares a task that is told to iterate with a `Reader` that dequeues for it.  The
  two make the same calls with the same outcomes, whatever other tasks do, and the answer to the
  iteration lists the results of the reader.
* `Fused` is about iterators.  One that has given its end or a failure is `Over`, and gives its end
  from then on without a look at the queue; after an item or a panic it can be asked again, and then
  makes a call of `dequeue`.

What makes an iterator be over is the answer that it gives (`Answer.endsIterator`), and nothing but
doing away with the iterator undoes it: a call claims only iterators that are not over, and only
under names that are taken already, or new.  So `Over.advance` and `Over.before` are proved from
what an operation does to the handles before its call and after it, and `Over.after` is the
induction on the run.  A name may be given to another iterator later, which is why `Fused` speaks of
runs in which the name stays taken.
-/

set_option autoImplicit false

namespace BoundedQueue

variable {α : Type}

/-- Whether an iterator is over that gives an answer: there is nothing, or a failure. -/
def Answer.endsIterator : Answer α → Bool
  | next none | next (some (.error _)) => true
  | _ => false

/-- The handle that is made or given back when a call is over that was made for a purpose. -/
def Purpose.handle? : Purpose α → Option String
  | .producer handle | .send handle | .next handle => some handle
  | _ => none

/-- Other handles are left alone. -/
theorem Purpose.get?_release {purpose : Purpose α} {name : String}
    (h : purpose.handle? ≠ some name) (handles : Handles) (o : Outcome α) :
    (purpose.release handles o).get? name = handles.get? name := by
  have hset {other : String} (hp : purpose.handle? = some other) (x : Handle) :
      (handles.set other x).get? name = handles.get? name := by
    rw [Handles.get?_set, if_neg fun heq : other = name => h (heq ▸ hp)]
  cases purpose with
  | plain | attempt | drop | gather => rfl
  | producer other =>
    cases o with
    | done => exact hset rfl _
    | item | drained | full | failed | panicked => rfl
  | send other => exact hset rfl _
  | next other => cases o <;> exact hset rfl _

/-- An operation claims no iterator that is over, and nothing that it claims is then over. -/
theorem Session.Opens.over_claim_iff {s : Session α} {alone : Bool} {op : Operation α}
    {purpose : Purpose α} {c : Call α} {name : String} (ho : s.Opens alone op purpose c) :
    (op.claim s.handles).get? name = some ⟨.iterator true, false⟩ ↔
      s.handles.get? name = some ⟨.iterator true, false⟩ := by
  have hother {other : String} {kind : HandleKind} {x : Option Handle}
      (hfree : s.handles.get? other = some ⟨kind, false⟩) (hkind : kind ≠ .iterator true)
      (hx : x ≠ some ⟨.iterator true, false⟩) :
      (if other = name then x else s.handles.get? name) = some ⟨.iterator true, false⟩ ↔
        s.handles.get? name = some ⟨.iterator true, false⟩ := by
    split
    · next hname =>
      refine iff_of_false hx fun hover => hkind ?_
      rw [← hname, hfree] at hover
      cases hover
      rfl
    · rfl
  cases ho with
  | send _ hg | next hg =>
    rw [Operation.claim, Handles.get?_set]
    exact hother hg (by simp) (by simp)
  | finish hg | drop hg =>
    rw [Operation.claim, Handles.get?_erase]
    exact hother hg (by simp) (by simp)
  | _ => rfl

namespace World

variable {w : Traffic α} {t : Int} {e : Engagement α} {name : String} {op : Operation α}
  {a : Answer α} {todo : List (Instruction (Operation α))}

/-- An iterator has come to its end. -/
def Over (w : Traffic α) (name : String) : Prop :=
  w.shared.handles.get? name = some ⟨.iterator true, false⟩

/-! ## What an iterator answers -/

/-- An iterator that is over gives its end, and that is all. -/
theorem Over.advance_eq (h : w.Over name)
    (ht : w.tasks.get t = ⟨.idle, .perform (.next name) :: todo⟩) :
    w.advance Session.machine t =
      ((w.place t .idle todo).report t (.completed (.next name) (.next none)), .ran) := by
  have hover : w.shared.advanceIterator name = w.shared.answer (.next none) := by
    simp only [Session.advanceIterator, show w.shared.handles.get? name = _ from h]
  rw [advance_of_perform _ ht]
  show w.settleMove t (.next name) todo (w.shared.advanceIterator name) = _
  rw [hover]
  rfl

/-- An iterator that is not over, and not in use, makes a call of `dequeue`. -/
theorem engagement_of_next (h : w.shared.handles.get? name = some ⟨.iterator false, false⟩)
    (ht : w.tasks.get t = ⟨.idle, .perform (.next name) :: todo⟩) :
    w.engagement? t = some ⟨.next name, .next name, .opening .dequeue, todo⟩ := by
  rw [engagement?, ht]
  simp only [Session.opening, h, Option.map_some]

/-- What an iterator answers tells whether it is over from then on; only where it was over before,
or could not be asked, the answer is given without a call. -/
theorem Regular.next_cases (hw : w.Regular) (h : w.Answers t (.next name) a) :
    (w.advance Session.machine t).1.shared = w.shared ∧
        (w.Over name ∧ a = .next none ∨ a = .noHandle) ∨
      (w.advance Session.machine t).1.shared.handles.get? name =
        some ⟨.iterator a.endsIterator, false⟩ := by
  rcases he : w.engagement? t with - | e
  · -- no call was made
    have hskips := skips_of_answers he h
    generalize (w.advance Session.machine t).1.shared = shared at hskips
    cases hskips with
    | ended hover => exact .inl ⟨rfl, .inl ⟨hover, rfl⟩⟩
    | noHandle => exact .inl ⟨rfl, .inr rfl⟩
  · obtain ⟨hop, s, o, ho, hconclude⟩ := concludes_of_answers he h
    have hpurpose := (hw.jobs.reaches he).2.next_iff.1 hop
    have hhandles := handles_advance he
    rw [hpurpose] at hconclude
    rw [ho, Engagement.release, hpurpose] at hhandles
    right
    rw [hhandles]
    cases o <;> cases hconclude <;> exact (Handles.get?_set _ _ _ _).trans (if_pos rfl)

/-- An iterator answers when its call is over. -/
theorem exists_answers_of_next {o : Outcome α} (hw : w.Jobs) (he : w.engagement? t = some e)
    (hp : e.purpose = .next name) (ho : (w.shared.queue.sectionAt e.spot).2 = .finish o) :
    ∃ a, w.Answers t (.next name) a := by
  have hop : e.op = .next name := (hw.reaches he).2.next_iff.2 hp
  obtain ⟨x, new, hx, -, hnew⟩ := (stride_advance he Prod.mk.eta.symm).1.landing
  rw [ho] at hx
  generalize hm : Move.finish o = move at hx
  cases hx with
  | stay hphases => subst hm; simp [Move.phases] at hphases
  | @finish s o a => exact ⟨a, hop ▸ hnew⟩
  | again hgather => cases hp.symm.trans hgather

/-! ## Iterators that are over -/

/-- An iterator that is over is claimed by nobody, and nobody claims what is then over. -/
theorem over_claim_iff (he : w.engagement? t = some e) :
    (e.claim w.shared.handles).get? name = some ⟨.iterator true, false⟩ ↔ w.Over name := by
  cases engaged he with
  | inside => rfl
  | opens _ ho => exact (Session.opens_of_opening ho).1.over_claim_iff

/-- A call neither makes nor gives back an iterator that is over. -/
theorem handle?_ne_of_over (hheld : w.Held) (hw : w.Jobs) (he : w.engagement? t = some e)
    (h : (e.claim w.shared.handles).get? name = some ⟨.iterator true, false⟩) :
    e.purpose.handle? ≠ some name := by
  intro hhandle
  have hbusy {kind : HandleKind} (hp : e.purpose.holds? = some (name, kind)) : False := by
    have hget := (hheld.claim he).busy t name kind ((Function.update_self _ _ _).trans hp)
    cases h.symm.trans hget
  cases hp : e.purpose with
  | producer other =>
    rw [hp] at hhandle
    cases hhandle
    cases h.symm.trans (hw.new_of_producer he hp)
  | send other | next other =>
    rw [hp] at hhandle
    cases hhandle
    exact hbusy (by rw [hp]; rfl)
  | plain | attempt | drop | gather => rw [hp] at hhandle; cases hhandle

/-- An iterator that is over stays so, unless it is done away with. -/
theorem Over.advance (h : w.Over name) (hheld : w.Held) (hw : w.Regular) (t : Int) :
    (w.advance Session.machine t).1.Over name ∨
      (w.advance Session.machine t).1.shared.handles.get? name = none := by
  rcases he : w.engagement? t with - | e
  · have haside := aside_advance he
    rw [Over] at h ⊢
    generalize (w.advance Session.machine t).1.shared.handles = handles at haside
    cases haside with
    | same => exact .inl h
    | @made other hnone =>
      have hne : other ≠ name := fun heq => by rw [heq, h] at hnone; cases hnone
      rw [Handles.get?_set, if_neg hne]
      exact .inl h
    | dropped =>
      rw [Handles.get?_erase]
      split
      · exact .inr rfl
      · exact .inl h
  · have hclaimed := (over_claim_iff he).2 h
    rw [Over, handles_advance he]
    cases (w.shared.queue.sectionAt e.spot).2 with
    | go | wait | signal => exact .inl hclaimed
    | finish o =>
      have hsame := Purpose.get?_release (handle?_ne_of_over hheld hw.jobs he hclaimed)
        (e.claim w.shared.handles) o
      exact .inl (hsame.trans hclaimed)

/-- An iterator that is over was so before, or has just given its end or a failure. -/
theorem Over.before (h : (w.advance Session.machine t).1.Over name) (hw : w.Regular) :
    w.Over name ∨ ∃ a, w.Answers t (.next name) a ∧ a.endsIterator = true := by
  rcases he : w.engagement? t with - | e
  · have haside := aside_advance he
    rw [Over] at h
    left
    generalize (w.advance Session.machine t).1.shared.handles = handles at h haside
    cases haside with
    | same => exact h
    | made =>
      rw [Handles.get?_set] at h
      split at h
      · cases h
      · exact h
    | dropped =>
      rw [Handles.get?_erase] at h
      split at h
      · cases h
      · exact h
  · have hafter := h
    rw [Over, handles_advance he] at h
    rw [← over_claim_iff he]
    generalize hm : (w.shared.queue.sectionAt e.spot).2 = move at h
    cases move with
    | go | wait | signal => exact .inl h
    | finish o =>
      rw [Engagement.release] at h
      by_cases hhandle : e.purpose.handle? = some name
      · generalize hp : e.purpose = purpose at h hhandle
        cases purpose with
        | plain | attempt | drop | gather => cases hhandle
        | producer other =>
          cases hhandle
          cases o with
          | done => cases ((Handles.get?_set _ _ _ _).trans (if_pos rfl)).symm.trans h
          | item | drained | full | failed | panicked => exact .inl h
        | send other =>
          cases hhandle
          cases ((Handles.get?_set _ _ _ _).trans (if_pos rfl)).symm.trans h
        | next other =>
          cases hhandle
          -- the iterator's own call is over, so its answer decides
          obtain ⟨a, ha⟩ := exists_answers_of_next hw.jobs he hp hm
          rcases hw.next_cases ha with ⟨hsame, -⟩ | hget
          · rw [Over, hsame] at hafter
            exact .inl ((over_claim_iff he).2 hafter)
          · rw [Over, hget] at hafter
            exact .inr ⟨a, ha, by simpa using hafter⟩
      · exact .inl ((Purpose.get?_release hhandle _ _).symm.trans h)

theorem Held.after (h : w.Held) (hw : w.Regular) (hs : List (Happening (Operation α))) :
    (w.after Session.machine hs).Held := by
  induction hs with
  | nil => exact h
  | cons x hs ih =>
    rw [after_cons]
    cases x with
    | advance t => exact ih.advance (hw.after hs) t
    | handOut a =>
      rw [World.happen, Held, (quiet_handOut _ a).holds_eq, handOut_shared]
      exact ih

/-- However a run goes on, an iterator that is over stays so until it is done away with. -/
theorem Over.after (h : w.Over name) (hheld : w.Held) (hw : w.Regular)
    {later : List (Happening (Operation α))}
    (hthere : w.Always Session.machine (fun v => v.shared.handles.get? name ≠ none) later) :
    (w.after Session.machine later).Over name := by
  induction later with
  | nil => exact h
  | cons x later ih =>
    have hlast := hthere.1
    rw [after_cons] at hlast ⊢
    specialize ih hthere.2
    cases x with
    | handOut a => rw [World.happen, Over, handOut_shared]; exact ih
    | advance t =>
      have hv := hheld.after hw later
      exact (ih.advance hv (hw.after later) t).resolve_right hlast

/-- What becomes of iterators. -/
structure Fused (w : Traffic α) : Prop where
  /-- An iterator that gives its end or a failure gives its end whenever it is asked again, until it
  is done away with, and does nothing else. -/
  ended : ∀ t name a, w.Answers t (.next name) a → a.endsIterator = true → ∀ later,
    (w.advance Session.machine t).1.Always Session.machine
      (fun v => v.shared.handles.get? name ≠ none) later →
    ∀ u todo, let v := (w.advance Session.machine t).1.after Session.machine later
      v.tasks.get u = ⟨.idle, .perform (.next name) :: todo⟩ →
        v.advance Session.machine u =
          ((v.place u .idle todo).report u (.completed (.next name) (.next none)), .ran)
  /-- After an item or a panic the iterator can be asked again. -/
  goes_on : ∀ t name a, w.Answers t (.next name) a → (∃ b, a = .next (some (.ok b))) ∨
      (∃ text, a = .panicked text) →
    (w.advance Session.machine t).1.shared.handles.get? name = some ⟨.iterator false, false⟩
  /-- An iterator that can be asked makes a call of `dequeue`. -/
  dequeues : ∀ t name todo, w.shared.handles.get? name = some ⟨.iterator false, false⟩ →
    w.tasks.get t = ⟨.idle, .perform (.next name) :: todo⟩ →
      w.engagement? t = some ⟨.next name, .next name, .opening .dequeue, todo⟩
  /-- Nothing but its end or a failure makes an iterator be over. -/
  before : ∀ t name, (w.advance Session.machine t).1.Over name → w.Over name ∨
    ∃ a, w.Answers t (.next name) a ∧ a.endsIterator = true

theorem Regular.fused (hw : w.Regular) (hheld : w.Held) : w.Fused where
  ended t name a ha hends later hthere u todo := by
    intro v hu
    have hover : (w.advance Session.machine t).1.Over name := by
      rcases hw.next_cases ha with ⟨hsame, ⟨hover, -⟩ | rfl⟩ | hget
      · rw [Over, hsame]
        exact hover
      · cases hends
      · rw [Over, hget, hends]
    exact (hover.after (hheld.advance hw t) (hw.happen (.advance t)) hthere).advance_eq hu
  goes_on t name a ha hgoes := by
    have hcall : a ≠ .next none ∧ a ≠ .noHandle ∧ a.endsIterator = false := by
      rcases hgoes with ⟨b, rfl⟩ | ⟨text, rfl⟩
      · simp [Answer.endsIterator]
      · simp [Answer.endsIterator]
    rcases hw.next_cases ha with ⟨-, ⟨-, rfl⟩ | rfl⟩ | hget
    · exact absurd rfl hcall.1
    · exact absurd rfl hcall.2.1
    · rw [hget, hcall.2.2]
  dequeues _ _ _ h ht := engagement_of_next h ht
  before _ _ h := h.before hw

/-! ## Item by item -/

/-- The world after a run that begins when task `t` is told to iterate. -/
def iterating (w : Traffic α) (t : Int) (wanted : Option Nat)
    (todo : List (Instruction (Operation α))) (later : List (Happening (Operation α))) :
    Traffic α :=
  (w.told t (.iteration wanted) todo).after Session.machine (later ++ [.advance t])

/-- The reader and its world after a run that begins when it dequeues for task `t`. -/
def reading (w : Traffic α) (t : Int) (wanted : Option Nat)
    (todo : List (Instruction (Operation α))) (later : List (Happening (Operation α))) :
    Reader α × Traffic α :=
  Reader.after ⟨t, wanted, todo, [], true⟩ (w.told t .dequeue todo) (later ++ [.advance t])

/-- A task that is told to iterate does what a reader does that dequeues for it. -/
structure ItemByItem (w : Traffic α) (t : Int) (wanted : Option Nat)
    (todo : List (Instruction (Operation α))) : Prop where
  /-- The reader never changes its mind. -/
  same : ∀ later, let r := (w.reading t wanted todo later).1
    r.task = t ∧ r.wanted = wanted ∧ r.todo = todo
  /-- Where the reader goes on with another call, the task might as well be told to dequeue again.
  -/
  calls : ∀ v : Traffic α, (v.dequeuing t todo).advance Session.machine t =
    (v.told t .dequeue todo).advance Session.machine t
  /-- However the run goes on, nothing differs but what the task is told to do, and the reports of
  what it is answered; when it is answered, the iteration gives the results of the reader, and
  neither makes another call. -/
  unrolls : ∀ later, Unrolls (.iteration wanted) (w.iterating t wanted todo later)
    (w.reading t wanted todo later).1 (w.reading t wanted todo later).2
  /-- Until then the calls of both end in the same steps, with the same outcomes. -/
  ending?_iff : ∀ later, (w.reading t wanted todo later).1.reading = true → ∀ o,
    (w.iterating t wanted todo later).ending? t = some (.ended (.iteration wanted) o) ↔
      (w.reading t wanted todo later).2.ending? t = some (.ended .dequeue o)
  /-- Every task has the same turn in both: it goes on, waits on the same thing, or wakes a waiter
  on the same thing. -/
  turn_eq : ∀ later u, ((w.reading t wanted todo later).2.advance Session.machine u).2 =
    ((w.iterating t wanted todo later).advance Session.machine u).2
  /-- So the run queue treats both alike, whichever tasks stand in line or wait. -/
  inLine : ∀ rest waiting wake n,
    let r : Reader α := ⟨t, wanted, todo, [], true⟩
    let s' : Case.Tasks α := ⟨w.told t .dequeue todo, t :: rest, waiting, wake⟩
    Reader.InLine (.iteration wanted) ((RunQueue.tick Session.machine)^[n + 1]
      ⟨w.told t (.iteration wanted) todo, t :: rest, waiting, wake⟩)
      (r.turns s' (n + 1)).1 (r.turns s' (n + 1)).2

theorem itemByItem (hw : w.tasks.Sorted) {wanted : Option Nat} (hwanted : wanted ≠ some 0) (t : Int)
    (todo : List (Instruction (Operation α))) : w.ItemByItem t wanted todo := by
  have hsorted (later : List (Happening (Operation α))) :
      (w.iterating t wanted todo later).tasks.Sorted := sorted_after (hw.set t _) _
  have hunrolls (later : List (Happening (Operation α))) :
      Unrolls (.iteration wanted) (w.iterating t wanted todo later)
        (w.reading t wanted todo later).1 (w.reading t wanted todo later).2 := by
    rw [iterating, reading, after_append, Reader.after_append]
    exact (w.unrolls_told t hwanted todo).1.after (hsorted []) later
  have hsame (later : List (Happening (Operation α))) :
      let r := (w.reading t wanted todo later).1
      r.task = t ∧ r.wanted = wanted ∧ r.todo = todo := Reader.after_same _ _ _
  refine ⟨hsame, fun v => v.advance_dequeuing t todo, hunrolls, fun later hr o => ?_,
    fun later u => ?_, fun rest waiting wake n => ?_⟩
  · have hends := (hunrolls later).ending?_iff hr o
    rw [(hsame later).1] at hends
    exact hends
  · exact ((hunrolls later).advance (hsorted later) u).2
  · exact inLine_turns hw hwanted t todo rest waiting wake n

section Fresh

variable {capacity : Nat} (onEnqueue onDequeue : Option (Hook α)) (log : Logbook)

/-- **An iteration is the same as dequeuing item by item, and iterators are fused.**  When a task is
told to iterate and wants nothing, it is through without a call.  Otherwise it makes the calls that
a reader makes, who dequeues again and again until there are as many results as are wanted, or no
item, or a failure. -/
theorem iteration_unrolls (hpos : 0 < capacity) (hmax : capacity ≤ Semaphore.maxPermits)
    (hs : List (Happening (Operation α))) :
    let w := (Traffic.fresh capacity onEnqueue onDequeue log).after Session.machine hs
    (∀ t todo, (w.told t (.take 0) todo).advance Session.machine t =
        ((w.place t .idle todo).report t (.completed (.take 0) (.listed [] none)), .ran)) ∧
      (∀ t wanted todo, wanted ≠ some 0 → w.ItemByItem t wanted todo) ∧ w.Fused := by
  intro w
  have hw : w.Regular := regular_after onEnqueue onDequeue log hpos hmax hs
  refine ⟨fun t todo => ?_, fun t wanted todo hwanted => itemByItem hw.sorted hwanted t todo,
    hw.fused (held_after onEnqueue onDequeue log hpos hmax hs)⟩
  obtain ⟨alone, hadv⟩ := w.advance_told t (.take 0) todo
  rw [hadv, told]
  simp only [Session.start, if_true, Session.answer, settleMove, place, report, Roster.set_set]

end Fresh

/-- A queue whose hook rejects 8, and panics at 9, when they are to be taken. -/
def wary : Traffic Nat :=
  .fresh 2 none (some (.ofVerdict fun _ entry =>
    if entry = .item 8 then .reject ⟨"eight", []⟩
    else if entry = .item 9 then .panic "nine"
    else .accept)) (.blank none)

/-- Task 1 puts an item. -/
def delivery (a : Nat) : List (Happening (Operation Nat)) :=
  List.replicate 4 (.advance 1) ++ [.handOut ⟨1, [.perform (.enqueue a)]⟩]

/-- Task 2 has made an iterator and has asked it for an item, `n` steps ago. -/
def inquiry (n : Nat) : List (Happening (Operation Nat)) :=
  List.replicate n (.advance 2) ++
    [.advance 2, .handOut ⟨2, [.perform (.iter "i"), .perform (.next "i"), .perform (.next "i")]⟩]

/-- Task 2 takes the item that is there, and waits for another one, which task 1 puts. -/
def shortage : List (Happening (Operation Nat)) :=
  List.replicate 4 (.advance 2) ++ delivery 8 ++ List.replicate 4 (.advance 2)

theorem iteration_unrolls_shortage :
    let w := wary.after Session.machine (delivery 7)
    let v := wary.after Session.machine (inquiry 3 ++ delivery 8)
    let v' := wary.after Session.machine (inquiry 1 ++ delivery 9)
    Unrolls (.take 2) (w.iterating 2 (some 2) [] shortage)
        (w.reading 2 (some 2) [] shortage).1 (w.reading 2 (some 2) [] shortage).2 ∧
      (w.reading 2 (some 2) [] shortage).1.results =
        [.error (.hook .dequeue ⟨"eight", []⟩), .ok 7] ∧
      (v.Answers 2 (.next "i") (.next (some (.error (.hook .dequeue ⟨"eight", []⟩)))) ∧
        ((v.advance Session.machine 2).1.after Session.machine (delivery 5)).Answers 2 (.next "i")
          (.next none)) ∧
      v'.Answers 2 (.next "i") (.panicked "nine") ∧
        (v'.advance Session.machine 2).1.shared.handles.get? "i" =
          some ⟨.iterator false, false⟩ := by
  have hmax : 2 ≤ Semaphore.maxPermits := by decide
  have hresults : ((wary.after Session.machine (delivery 7)).reading 2 (some 2) []
      shortage).1.results = [.error (.hook .dequeue ⟨"eight", []⟩), .ok 7] := rfl
  have hfailed : (wary.after Session.machine (inquiry 3 ++ delivery 8)).Answers 2 (.next "i")
      (.next (some (.error (.hook .dequeue ⟨"eight", []⟩)))) := rfl
  have hpanicked : (wary.after Session.machine (inquiry 1 ++ delivery 9)).Answers 2 (.next "i")
      (.panicked "nine") := rfl
  have hthere : ((wary.after Session.machine (inquiry 3 ++ delivery 8)).advance Session.machine
      2).1.Always Session.machine (fun x => x.shared.handles.get? "i" ≠ none) (delivery 5) := by
    decide +kernel
  have hagain : (((wary.after Session.machine (inquiry 3 ++ delivery 8)).advance Session.machine
      2).1.after Session.machine (delivery 5)).tasks.get 2 = ⟨.idle, [.perform (.next "i")]⟩ := rfl
  obtain ⟨-, hitems, -⟩ := iteration_unrolls none _ (.blank none) Nat.two_pos hmax (delivery 7)
  obtain ⟨-, -, hwary⟩ := iteration_unrolls none _ (.blank none) Nat.two_pos hmax
    (inquiry 3 ++ delivery 8)
  obtain ⟨-, -, hwary'⟩ := iteration_unrolls none _ (.blank none) Nat.two_pos hmax
    (inquiry 1 ++ delivery 9)
  have hends := hwary.ended 2 "i" _ hfailed rfl (delivery 5) hthere 2 [] hagain
  exact ⟨(hitems 2 (some 2) [] (by decide)).unrolls shortage, hresults,
    ⟨hfailed, congrArg (fun x : Traffic Nat × Turn Side => x.1.events) hends⟩, hpanicked,
    hwary'.goes_on 2 "i" _ hpanicked (.inr ⟨_, rfl⟩)⟩

end World

end BoundedQueue
