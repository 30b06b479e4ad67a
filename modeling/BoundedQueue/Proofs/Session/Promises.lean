import BoundedQueue.Proofs.Queue.Promises
import BoundedQueue.Proofs.Session.Jobs

/-!
# An account of the markers of a run

`markers_accounted` says where the markers of a run are.  Counted from the last time that the whole
queue was cleared, there are never more of them in the ring and promised than producers left,
whatever fails or panics.  As long as nothing panics and no hook refuses a marker, those that are
missing were absorbed or left out.

* `lately` is what was reported since the queue was cleared.  That a clearing succeeded is known
  from its answer (`isRenewal`), and `Regular.renewal_of_landing` says that the answer tells the
  truth.
* `Untroubled` says that lately no operation has panicked and no hook has refused a marker.  What
  came before the clearing does not matter, so that this is not inherited by all earlier worlds of a
  run, but only by those since the clearing (`Untroubled.before`).
* `unspoilt_after` is the invariant for the exact account, and `allMarkers_le_after` the one for the
  bound.
* `Regular.allMarkers_grow` compares any two worlds of a run: the markers grow by no more than the
  number of producers that leave in between.
-/

set_option autoImplicit false

namespace BoundedQueue

variable {α : Type}

namespace Event

/-- Whether it is reported that the whole queue was cleared. -/
def isRenewal (e : Event (Operation α) (Answer α)) : Bool :=
  match e.what with
  | .completed .clear .done => true
  | _ => false

/-- Whether it is reported that an operation panicked. -/
def isPanic (e : Event (Operation α) (Answer α)) : Bool :=
  match e.what with
  | .completed _ (.panicked _) => true
  | _ => false

end Event

namespace World

variable {w w' : Traffic α} {t : Int} {e : Engagement α}

/-! ## What was reported lately -/

/-- What was reported since the whole queue was cleared, or from the beginning, newest first. -/
def lately (w : Traffic α) : List (Event (Operation α) (Answer α)) :=
  w.events.takeWhile fun e => !e.isRenewal

/-- Since the whole queue was cleared, or from the beginning, no operation has panicked and no hook
has refused a marker on its way in. -/
structure Untroubled (w : Traffic α) : Prop where
  calm : ∀ e ∈ w.lately, e.isPanic = false
  accepted : ∀ cause,
    .consulted .enqueue .eof (.reject cause) ∉ sinceRenewal w.shared.queue.history

theorem lately_append {new : List (Event (Operation α) (Answer α))}
    (hnew : w'.events = new ++ w.events) (h : ∀ e ∈ new, e.isRenewal = false) :
    w'.lately = new ++ w.lately := by
  rw [lately, hnew]
  exact List.takeWhile_append_of_pos fun e he => by rw [h e he]; rfl

/-- What is not troubled after a step that forgets nothing was not troubled before. -/
theorem Untroubled.before (h : w'.Untroubled) (new : List (Event (Operation α) (Answer α)))
    (notes : List (Note α)) (hnew : w'.events = new ++ w.events)
    (hrenewal : ∀ e ∈ new, e.isRenewal = false)
    (hnotes : sinceRenewal w'.shared.queue.history =
      notes ++ sinceRenewal w.shared.queue.history) :
    w.Untroubled ∧ ∀ e ∈ new, e.isPanic = false := by
  have hcalm := h.calm
  have haccepted := h.accepted
  rw [lately_append hnew hrenewal] at hcalm
  rw [hnotes] at haccepted
  exact ⟨⟨fun e he => hcalm e (List.mem_append_right _ he),
    fun cause hm => haccepted cause (List.mem_append_right _ hm)⟩,
    fun e he => hcalm e (List.mem_append_left _ he)⟩

/-- A task that carries out no section does not clear the queue. -/
theorem Aside.isRenewal_eq {s : Session α} {new : List (Occurrence (Operation α) (Answer α))}
    (h : Aside s new) : ∀ e ∈ new.map (Event.mk t), e.isRenewal = false := by
  cases h with
  | nothing => exact fun e he => absurd he List.not_mem_nil
  | yielded | unreadable => simp [Event.isRenewal]
  | @completed op s' a hskips =>
    refine fun e he => ?_
    obtain rfl := List.mem_singleton.1 he
    cases hskips with
    | @noHandle op => cases op <;> rfl
    | _ => rfl

/-- A task reports that it has cleared the queue when it has. -/
theorem Regular.renewal_of_landing (hw : w.Regular) (he : w.engagement? t = some e)
    {move : Move (Phase α) Side (Outcome α)} {x : Task (Operation α) (Job α)}
    {new : List (Occurrence (Operation α) (Answer α))} (hx : Landing e move x new)
    (hne : ¬(e.spot = .opening .clear ∧ move = .finish .done)) :
    ∀ e ∈ new.map (Event.mk t), e.isRenewal = false := by
  cases hx with
  | stay | again => exact fun e he => absurd he List.not_mem_nil
  | @finish s o a ha =>
    obtain ⟨⟨c, hc, hreach⟩, hserves⟩ := hw.jobs.reaches he
    obtain ⟨op, purpose, spot, todo⟩ := e
    refine fun e he => ?_
    obtain rfl := List.mem_singleton.1 he
    cases op with
    | clear =>
      cases hc
      cases hserves
      cases spot with
      | phase => exact hreach.elim
      | opening =>
        cases hreach
        cases o with
        | done => exact absurd ⟨rfl, rfl⟩ hne
        | _ => cases ha; rfl
    | _ => rfl

/-! ## The account -/

theorem unspoilt_of_log {q : Queue α} (log : Logbook) {phases : Multiset (Phase α)}
    (h : q.Unspoilt phases) : { q with log := log : Queue α }.Unspoilt phases :=
  ⟨h.bufferSound, h.producersSound, h.unstranded, h.markers_eq⟩

theorem unspoilt_askFilled {q : Queue α} {phases : Multiset (Phase α)} (h : q.Unspoilt phases) :
    q.Unspoilt ({.askFilled} + phases) := by
  refine ⟨h.bufferSound, h.producersSound, fun p hp => ?_, ?_⟩
  · rcases Multiset.mem_add.1 hp with hp | hp
    · rw [Multiset.mem_singleton.1 hp]; rfl
    · exact h.unstranded p hp
  · have heq := h.markers_eq
    rw [Queue.allMarkers] at heq ⊢
    rw [promised_add, promised_of_none rfl, zero_add]
    exact heq

theorem Quiet.unspoilt (hquiet : Quiet w w') (hw : w.tasks.Sorted)
    (h : w.shared.queue.Unspoilt w.phases) : w'.shared.queue.Unspoilt w'.phases := by
  obtain ⟨log, hq⟩ := hquiet.queue_eq
  rw [hq, hquiet.phases_eq hw]
  exact unspoilt_of_log log h

/-- No marker is lost in a step in which nothing panics and no hook refuses a marker. -/
theorem Regular.unspoilt_advance (hw : w.Regular)
    (h : w.Untroubled → w.shared.queue.Unspoilt w.phases) (t : Int)
    (hcalm : (w.advance Session.machine t).1.Untroubled) :
    (w.advance Session.machine t).1.shared.queue.Unspoilt
      (w.advance Session.machine t).1.phases := by
  have hring := hw.within.ringSound
  rcases hw.step_cases t with ⟨he, hquiet⟩ | ⟨e, r, q', move, he, hp, hs | ⟨-, b, p, hs⟩⟩
  · obtain ⟨-, new, haside, hnew⟩ := quiet_advance he
    have hbefore := (hcalm.before _ [] hnew haside.isRenewal_eq
      (congrArg sinceRenewal hquiet.history_eq)).1
    exact hquiet.unspoilt hw.sorted (h hbefore)
  · obtain ⟨log, hq⟩ := hs.queue_eq
    obtain ⟨x, new, hx, -, hnew⟩ := hs.landing
    refine hs.keeps (I := Queue.Unspoilt) hw.sorted (fun _ log _ => unspoilt_of_log log)
      (fun _ _ => unspoilt_askFilled) ?_
    rcases hp.renewal_cases hring with ⟨hspot, rfl, hclear⟩ | ⟨hne, notes, hnotes⟩
    · rw [hs.alone hspot]
      exact hclear
    · have hwindow : sinceRenewal (w.advance Session.machine t).1.shared.queue.history =
          sinceRenewal q'.history := by rw [hq]
      obtain ⟨hbefore, hpanic⟩ := hcalm.before _ notes hnew (hw.renewal_of_landing he hx hne)
        (hwindow.trans hnotes)
      have hunspoilt := h hbefore
      rw [hs.before hw.sorted] at hunspoilt
      refine hunspoilt.passage hring hp hne ?_ fun cause hm => ?_
      · rintro text rfl
        rw [hx.new_of_panicked] at hpanic
        cases hpanic _ (List.mem_singleton_self _)
      · exact hcalm.accepted cause (hwindow ▸ hm)
  · obtain ⟨x, new, hx, -, hnew⟩ := hs.landing
    have hcalm := hcalm.calm
    rw [lately_append hnew (hw.renewal_of_landing he hx fun hm => nomatch hm.2),
      hx.new_of_panicked] at hcalm
    cases hcalm _ List.mem_cons_self

theorem Regular.unspoilt_happen (hw : w.Regular)
    (h : w.Untroubled → w.shared.queue.Unspoilt w.phases) (x : Happening (Operation α))
    (hcalm : (w.happen Session.machine x).Untroubled) :
    (w.happen Session.machine x).shared.queue.Unspoilt (w.happen Session.machine x).phases := by
  cases x with
  | advance t => exact hw.unspoilt_advance h t hcalm
  | handOut a =>
    have hquiet := quiet_handOut w a
    have hhistory := congrArg sinceRenewal hquiet.history_eq
    refine hquiet.unspoilt hw.sorted (h ?_)
    rcases w.handOut_events a with he | he
    · exact (hcalm.before [] [] he (by simp) hhistory).1
    · refine (hcalm.before [_] [] he ?_ hhistory).1
      intro e hmem
      rw [List.mem_singleton.1 hmem]
      rfl

section Keeps

variable {m : Nat} {q : Queue α} {phases others : Multiset (Phase α)}

/-- A bound on the markers does not depend on a call that asks for an item. -/
theorem allMarkers_askFilled (h : q.allMarkers phases ≤ m) :
    q.allMarkers ({.askFilled} + phases) ≤ m := by
  rw [Queue.allMarkers, promised_add, promised_of_none rfl, zero_add]
  exact h

/-- A call that is given up leaves no more markers than there were. -/
theorem allMarkers_others (h : q.allMarkers (phases + others) ≤ m) : q.allMarkers others ≤ m := by
  rw [Queue.allMarkers, promised_add] at h
  rw [Queue.allMarkers]
  omega

end Keeps

/-- From any point on, the markers grow by no more than the number of producers that leave. -/
theorem Regular.allMarkers_grow (hw : w.Regular) (ks : List (Happening (Operation α))) :
    let w' := w.after Session.machine ks
    w'.shared.queue.allMarkers w'.phases + w.shared.queue.history.countP Note.isLowered ≤
      w.shared.queue.allMarkers w.phases + w'.shared.queue.history.countP Note.isLowered := by
  suffices h : (w.after Session.machine ks).Regular ∧ _ from h.2
  induction ks with
  | nil => exact ⟨hw, Nat.le_refl _⟩
  | cons x ks ih =>
    obtain ⟨hregular, hle⟩ := ih
    rw [after_cons]
    generalize w.after Session.machine ks = v at *
    refine ⟨hregular.happen x, (course_happen hregular.sorted hregular.within x).keeps
      (I := fun q phases => q.allMarkers phases + w.shared.queue.history.countP Note.isLowered ≤
        w.shared.queue.allMarkers w.phases + q.history.countP Note.isLowered)
      hregular.sorted hle (fun _ _ _ => id) ?_ ?_ ?_⟩
    · intro q phases h
      have := allMarkers_askFilled (Nat.le_sub_of_add_le h)
      omega
    · intro q b p phases others h
      have : q.allMarkers others ≤ _ := allMarkers_others (Nat.le_sub_of_add_le h)
      simp only [Queue.allMarkers] at *
      omega
    · intro spot r q' move others hphases halone hp
      have hgrow := hp.allMarkers_grow hregular.within.ringSound halone
      rw [← hphases] at hgrow
      omega

/-- The markers in the ring, those that producers are still to leave, and those that consumers at
the end of input are still to put back. -/
def markers (w : Traffic α) : Nat :=
  w.shared.queue.ring.contents.countP Entry.isMarker + leaving w.phases + relaying w.phases

theorem markers_eq_allMarkers (w : Traffic α) : w.markers = w.shared.queue.allMarkers w.phases :=
  Nat.add_assoc _ _ _

section Fresh

variable {capacity : Nat} (onEnqueue onDequeue : Option (Hook α)) (log : Logbook)

/-- Since the ring, or the whole queue, was cleared, there are no more markers than producers that
left. -/
theorem allMarkers_le_after (hpos : 0 < capacity) (hmax : capacity ≤ Semaphore.maxPermits)
    (stop : Note α → Bool) (hstop : ∀ n, stop n = true → n.startsAfresh = true)
    (hs : List (Happening (Operation α))) :
    let w := (Traffic.fresh capacity onEnqueue onDequeue log).after Session.machine hs
    w.shared.queue.allMarkers w.phases ≤
      (w.shared.queue.history.takeWhile fun n => !stop n).countP Note.isLowered := by
  induction hs with
  | nil => exact Nat.le_refl _
  | cons x hs ih =>
    have hring := (within_after onEnqueue onDequeue log hpos hmax hs).ringSound
    refine (course_after onEnqueue onDequeue log hpos hmax x hs).keeps
      (I := fun q phases => q.allMarkers phases ≤
        (q.history.takeWhile fun n => !stop n).countP Note.isLowered)
      (sorted_fresh onEnqueue onDequeue log capacity hs) ih (fun _ _ _ => id)
      (fun _ _ => allMarkers_askFilled) (fun _ _ _ _ _ => allMarkers_others) ?_
    intro spot r q' move others hphases halone hp
    refine hp.allMarkers_le hring halone hstop ?_
    rw [← hphases]
    exact ih

/-- No marker is lost as long as nothing panics and no hook refuses a marker. -/
theorem unspoilt_after (hpos : 0 < capacity) (hmax : capacity ≤ Semaphore.maxPermits)
    (hs : List (Happening (Operation α))) :
    let w := (Traffic.fresh capacity onEnqueue onDequeue log).after Session.machine hs
    w.Untroubled → w.shared.queue.Unspoilt w.phases := by
  induction hs with
  | nil =>
    exact fun _ => ⟨rfl, rfl, fun p hp => absurd hp (Multiset.notMem_zero p), rfl⟩
  | cons x hs ih =>
    exact (regular_after onEnqueue onDequeue log hpos hmax hs).unspoilt_happen ih x

/-- **Every marker is accounted for.**  Counted from the last time that the whole queue was cleared,
there are no more markers than producers that left.  If since then nothing panicked and no hook
refused a marker, those that are missing were absorbed or left out.  So where one producer left
there is one marker at most; and from any point on it takes a producer that leaves to make another
one. -/
theorem markers_accounted (hpos : 0 < capacity) (hmax : capacity ≤ Semaphore.maxPermits)
    (hs : List (Happening (Operation α))) :
    let w := (Traffic.fresh capacity onEnqueue onDequeue log).after Session.machine hs
    let history := w.shared.queue.history
    let lately := sinceRenewal history
    w.markers ≤ lately.countP Note.isLowered ∧
      (w.Untroubled → lately.countP Note.isLowered =
        w.markers + lately.countP Note.isAbsorbed + lately.countP Note.isLeftOut) ∧
      (lately.countP Note.isLowered = 1 → w.markers ≤ 1) ∧
      ∀ ks, let w' := w.after Session.machine ks
        w'.markers + history.countP Note.isLowered ≤
          w.markers + w'.shared.queue.history.countP Note.isLowered := by
  intro w history lately
  have hle : w.markers ≤ lately.countP Note.isLowered := by
    rw [markers_eq_allMarkers]
    exact allMarkers_le_after onEnqueue onDequeue log hpos hmax Note.isRenewed
      (fun n hn => by cases n <;> first | rfl | cases hn) hs
  refine ⟨hle, fun hcalm => ?_, fun hone => hone ▸ hle, fun ks => ?_⟩
  · rw [markers_eq_allMarkers, Nat.add_assoc, ← Note.countP_usesUpMarker]
    exact (unspoilt_after onEnqueue onDequeue log hpos hmax hs hcalm).markers_eq.symm
  · intro w'
    rw [markers_eq_allMarkers, markers_eq_allMarkers]
    exact (regular_after onEnqueue onDequeue log hpos hmax hs).allMarkers_grow ks

end Fresh

/-- A consumer at the end of input panics and takes the marker along; then the queue is cleared.
Two producers leave, for whom there is a single slot, and the next consumer leaves the marker out
because the second producer has got the slot by now. -/
def secondTry : List (Happening (Operation Nat)) :=
  [.advance 3, .advance 2, .advance 3, .advance 3, .advance 3, .handOut ⟨3, [.perform .dequeue]⟩,
    .advance 2, .advance 2, .handOut ⟨2, [.perform .deregister]⟩,
    .advance 1, .advance 1, .advance 1, .advance 1, .advance 1, .advance 1, .advance 1,
    .handOut ⟨1, [.perform .register, .perform .register, .perform .deregister]⟩,
    .advance 1, .advance 1, .advance 1, .advance 1, .advance 1, .advance 1, .advance 1, .advance 1,
    .advance 1, .advance 1, .advance 1, .advance 1,
    .handOut ⟨1, [.perform .register, .perform .deregister, .perform (.trap "queue drained"),
      .perform .dequeue, .perform .clear]⟩]

theorem markers_accounted_secondTry :
    let w := (Traffic.fresh 1 none none (.blank (some .debug))).after Session.machine secondTry
    let lately := sinceRenewal w.shared.queue.history
    (w.events.any Event.isPanic = true ∧ w.Untroubled ∧ lately.countP Note.isLowered = 2) ∧
    w.markers ≤ 2 ∧ 2 = w.markers + lately.countP Note.isAbsorbed + lately.countP Note.isLeftOut ∧
    leaving w.phases = 1 ∧ lately.countP Note.isLeftOut = 1 := by
  intro w lately
  have hlately : lately = [.leftOut, .concluded, .popped .eof, .lowered, .pushed .eof, .lowered,
      .raised, .raised] := by decide +kernel
  have hlowered : lately.countP Note.isLowered = 2 := by rw [hlately]; rfl
  have hcalm : w.Untroubled := by
    refine ⟨by decide +kernel, fun cause hm => ?_⟩
    have hm : _ ∈ lately := hm
    rw [hlately] at hm
    simp at hm
  obtain ⟨hle, heq, -, -⟩ := markers_accounted none none (.blank (some .debug)) Nat.one_pos
    (by decide) secondTry
  exact ⟨⟨by decide +kernel, hcalm, hlowered⟩, hlowered ▸ hle, hlowered ▸ heq hcalm,
    by decide +kernel, by rw [hlately]; rfl⟩

end World

end BoundedQueue
