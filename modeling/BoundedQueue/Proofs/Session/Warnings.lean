import BoundedQueue.Proofs.Queue.Warnings
import BoundedQueue.Proofs.Session.Panics

/-!
# Calls that warn

`World.warnings` collects the warnings that a task has written in the call in which it is.  There
are any just if the call has met a failure, and is going to end with it: `warnings_iff`, by
induction on the run.  The failure that a phase remembers is what carries the induction, since the
warning comes first, and the call may go through some more sections before it ends.

* `newWarnings` are those of the next section of a task.  What follows from a call comes after it,
  such as the report that a dropped guard could not deregister, and does not count.
* `Regular.keeps_after` says that the logbook keeps the same levels in every run, so that a warning
  is not missing merely because nobody writes it down.
* `warnings_of_finish` and `warnings_of_answers` are about calls that are over, and about the
  operations that they were made for.

`failures_warned` says that a call that ends without a panic has warned if it fails, and only then.
It also says that a head which was accepted can be popped, so that there is no failure at this place
about which nothing would be written.
-/

set_option autoImplicit false

namespace BoundedQueue

variable {α : Type}

/-- The failure with which the call of a task is going to end. -/
def Task.error? (task : Task (Operation α) (Job α)) : Option Error :=
  match task.standing with
  | .inside _ job => job.phase.error?
  | _ => none

theorem Task.error?_of_outside {task : Task (Operation α) (Job α)} (h : task.isInside = false) :
    task.error? = none := by
  obtain ⟨standing, todo⟩ := task
  cases standing with
  | inside => cases h
  | idle | paused => rfl

/-- Unless it is dropped, an operation reports the failure of its last call. -/
theorem Session.error?_of_failed {s : Session α} {purpose : Purpose α} {e : Error} {a : Answer α}
    (h : (s.conclude (.failed e) purpose).2 = .finish a) (hp : purpose ≠ .drop) :
    a.error? = some e := by
  cases purpose with
  | drop => exact absurd rfl hp
  | _ => cases h; rfl

namespace World

variable {w : Traffic α} {t : Int} {e : Engagement α}

/-! ## What the logbook keeps -/

theorem Regular.detail_advance (hw : w.Regular) (t : Int) :
    (w.advance Session.machine t).1.shared.queue.log.detail = w.shared.queue.log.detail := by
  rcases he : w.engagement? t with - | e
  · obtain hlog | ⟨text, hlog⟩ := log_of_quiet he
    · rw [hlog]
    · rw [hlog, Logbook.setTrap]
  · have hsection := Queue.detail_sectionAt (hw.workable he)
    rcases queue_advance he with hq | ⟨err, -, hq⟩
    · rw [hq, hsection]
    · rw [hq, Queue.record, Logbook.write, hsection]

/-- The logbook keeps the same levels in every run. -/
theorem Regular.keeps_after (hw : w.Regular) (hs : List (Happening (Operation α)))
    (level : Level) :
    (w.after Session.machine hs).shared.queue.log.keeps level = w.shared.queue.log.keeps level := by
  suffices hdetail : (w.after Session.machine hs).shared.queue.log.detail =
      w.shared.queue.log.detail by rw [Logbook.keeps, Logbook.keeps, hdetail]
  induction hs with
  | nil => rfl
  | cons x hs ih =>
    rw [after_cons]
    cases x with
    | handOut a => rw [World.happen, handOut_shared, ih]
    | advance t => rw [World.happen, (hw.after hs).detail_advance, ih]

/-! ## Warnings of a call -/

/-- The warnings in the next section of a task. -/
def newWarnings (w : Traffic α) (t : Int) : List Record :=
  match w.engagement? t with
  | none => []
  | some e => w.shared.queue.log.warningsSince (w.shared.queue.sectionAt e.spot).1.log

/-- The warnings so far of the call in which a task is after a run, oldest first. -/
def warnings (w : Traffic α) (t : Int) : List (Happening (Operation α)) → List Record
  | [] => []
  | .handOut _ :: hs => w.warnings t hs
  | .advance u :: hs =>
    let v := w.after Session.machine hs
    if u ≠ t then w.warnings t hs
    else if (v.ending? t).isSome then []
    else w.warnings t hs ++ v.newWarnings t

theorem newWarnings_of_engagement (he : w.engagement? t = some e) : w.newWarnings t =
    w.shared.queue.log.warningsSince (w.shared.queue.sectionAt e.spot).1.log := by
  rw [newWarnings, he]

theorem newWarnings_of_quiet (he : w.engagement? t = none) : w.newWarnings t = [] := by
  rw [newWarnings, he]

theorem error?_of_engagement (he : w.engagement? t = some e) :
    (w.tasks.get t).error? = e.spot.error? := by
  cases engaged he with
  | inside ht | opens ht => rw [ht]; rfl

theorem Quiet.error?_eq {w' : Traffic α} (h : Quiet w w') (u : Int) :
    (w'.tasks.get u).error? = (w.tasks.get u).error? := by
  rcases h.get_cases u with heq | ⟨hbefore, hafter⟩
  · rw [heq]
  · rw [Task.error?_of_outside hbefore, Task.error?_of_outside hafter]

section Landing

variable {move : Move (Phase α) Side (Outcome α)} {x : Task (Operation α) (Job α)}
  {new : List (Occurrence (Operation α) (Answer α))}

/-- A call that goes on remembers its failure. -/
theorem Landing.error?_eq (h : Landing e move x new) (hgoes : ¬∃ o, move = .finish o) :
    x.error? = move.error? := by
  cases h with
  | stay hphases => exact (Move.error?_of_mem (hphases ▸ Multiset.mem_singleton_self _)).symm
  | finish | again => exact absurd ⟨_, rfl⟩ hgoes

/-- A call that is over leaves no failure to its task. -/
theorem Landing.error?_of_finish {o : Outcome α} (h : Landing e (.finish o) x new) :
    x.error? = none := by
  generalize hm : Move.finish o = move at h
  cases h with
  | stay hphases => subst hm; simp [Move.phases] at hphases
  | finish | again => rfl

end Landing

/-- **A call has warned just if it is going to fail.** -/
theorem warnings_iff {w₀ : Traffic α} (hw₀ : w₀.Regular)
    (hkeeps : w₀.shared.queue.log.keeps .warn = true) (hout : (w₀.tasks.get t).isInside = false)
    (hs : List (Happening (Operation α))) : w₀.warnings t hs ≠ [] ↔
      ((w₀.after Session.machine hs).tasks.get t).error?.isSome = true := by
  have hnothing : ([] : List Record) ≠ [] ↔ (none : Option Error).isSome = true := by simp
  induction hs with
  | nil => rw [after_nil, Task.error?_of_outside hout, warnings]; exact hnothing
  | cons x hs ih =>
    have hw := hw₀.after hs
    have hkept := (hw₀.keeps_after hs .warn).trans hkeeps
    rw [after_cons]
    cases x with
    | handOut a => rw [warnings, happen, (quiet_handOut _ a).error?_eq]; exact ih
    | advance u =>
      rw [warnings, happen]
      by_cases hu : u = t
      · subst hu
        rw [if_neg (not_not_intro rfl)]
        rcases he : (w₀.after Session.machine hs).engagement? u with - | e
        · rw [ending?_eq_none he, newWarnings_of_quiet he, (quiet_advance he).1.error?_eq]
          simpa using ih
        · rw [error?_of_engagement he] at ih
          obtain ⟨x, new, hx, ht, -⟩ := hw.exists_landing he
          rw [ht, Roster.get_set_self]
          by_cases hend : ((w₀.after Session.machine hs).ending? u).isSome = true
          · obtain ⟨o, ho⟩ := (ending?_isSome he).1 hend
            rw [ho] at hx
            rw [if_pos hend, hx.error?_of_finish]
            exact hnothing
          · have hgoes := fun h => hend ((ending?_isSome he).2 h)
            have hsection := Queue.isSome_error?_sectionAt_iff (hw.workable he) hkept
              fun text htext => hgoes ⟨_, htext⟩
            rw [if_neg hend, hx.error?_eq hgoes, hsection, newWarnings_of_engagement he, ne_eq,
              List.append_eq_nil_iff, not_and_or]
            exact or_congr_left ih
      · rw [if_pos hu, advance_get_of_ne _ _ _ (Ne.symm hu)]
        exact ih

/-! ## Calls that are over -/

section Over

variable {w₀ : Traffic α} {hs : List (Happening (Operation α))} {op : Operation α}

/-- What a call has warned of when it is over. -/
theorem warnings_of_finish {o : Outcome α} (hw₀ : w₀.Regular)
    (hkeeps : w₀.shared.queue.log.keeps .warn = true) (hout : (w₀.tasks.get t).isInside = false)
    (he : (w₀.after Session.machine hs).engagement? t = some e)
    (ho : ((w₀.after Session.machine hs).shared.queue.sectionAt e.spot).2 = .finish o)
    (hcalm : ∀ text, o ≠ .panicked text) :
    w₀.warnings t hs ++ (w₀.after Session.machine hs).newWarnings t ≠ [] ↔
      ∃ err, o = .failed err := by
  have hfails : (Move.finish (ι := Side) o).error?.isSome = true ↔ ∃ err, o = .failed err := by
    cases o <;> simp [Move.error?]
  have hsection := Queue.isSome_error?_sectionAt_iff ((hw₀.after hs).workable he)
    ((hw₀.keeps_after hs .warn).trans hkeeps)
    fun text htext => hcalm text (Move.finish.inj (ho.symm.trans htext))
  rw [← hfails, ← ho, hsection, ← error?_of_engagement he, ← warnings_iff hw₀ hkeeps hout,
    newWarnings_of_engagement he, ne_eq, List.append_eq_nil_iff, not_and_or]

/-- What an operation has warned of when it is answered. -/
theorem warnings_of_answers {a : Answer α} (hw₀ : w₀.Regular)
    (hkeeps : w₀.shared.queue.log.keeps .warn = true) (hout : (w₀.tasks.get t).isInside = false)
    (ha : (w₀.after Session.machine hs).Answers t op a) (hop : ∀ handle, op ≠ .drop handle)
    (hcalm : ∀ text, a ≠ .panicked text) :
    w₀.warnings t hs ++ (w₀.after Session.machine hs).newWarnings t ≠ [] ↔
      ∃ err, a.error? = some err := by
  have hw := hw₀.after hs
  rcases he : (w₀.after Session.machine hs).engagement? t with - | e
  · -- no call was made
    have hidle := (Answer.nothing_of_isIdle (skips_of_answers he ha).isIdle).2
    have hnone : w₀.warnings t hs = [] := by
      by_contra hsome
      have hphase := (warnings_iff hw₀ hkeeps hout hs).1 hsome
      rw [Task.error?_of_outside (outside_of_engagement he)] at hphase
      cases hphase
    rw [hnone, newWarnings_of_quiet he, hidle]
    simp
  · obtain ⟨rfl, s, o, ho, hconclude⟩ := concludes_of_answers he ha
    have hdrop : e.purpose ≠ .drop := by
      intro hp
      have hserves := (hw.jobs.reaches he).2
      rw [hp] at hserves
      generalize e.op = op at hserves hop
      cases hserves with
      | drop handle => exact hop handle rfl
    rw [warnings_of_finish hw₀ hkeeps hout he ho ?_]
    · constructor
      · rintro ⟨err, rfl⟩
        exact ⟨err, Session.error?_of_failed hconclude hdrop⟩
      · rintro ⟨err, herr⟩
        exact ⟨err, Session.outcome_of_error hconclude herr⟩
    · rintro text rfl
      rw [Session.conclude_panicked] at hconclude
      cases hconclude
      exact hcalm text rfl

end Over

/-- What can be seen at the head of the ring, and is accepted, can be popped. -/
theorem Regular.exists_pop (hw : w.Regular) {head : Entry α} {q' : Queue α}
    (hpeek : w.shared.queue.ring.peek? = some head)
    (hc : w.shared.queue.consult .dequeue head = (.accept, q')) :
    ∃ ring, q'.ring.pop? = some (head, ring) := by
  obtain ⟨rest, hpop, -⟩ := Queue.exists_of_peek hw.within.ringSound hpeek
  obtain ⟨onE, onD, notes, -, rfl⟩ := Queue.exists_of_consult hc
  exact ⟨rest, hpop⟩

/-- **No failure is silent, and no alarm is false.**  Where warnings are kept, the logbook has one
when a builder refuses to build a queue, and none when it builds one.  However tasks then work on
the queue, a call that ends without a panic has written a warning just if it fails; to find no slot
free is no failure.  The same goes for what operations answer, but for the dropping of a guard,
which cannot report a failure.

A consumer whose hook accepts the head of the ring can pop it, so that it does not get to the one
place where a call would fail without a warning. -/
theorem failures_warned (b : Builder α) (log : Logbook) (hkeeps : log.keeps .warn = true)
    (hmax : b.capacity ≤ Semaphore.maxPermits) :
    ((∃ q, b.build log = .ok q ∧ q.log = log) ∨
        ∃ e log', b.build log = .error (e, log') ∧ log.warningsSince log' ≠ []) ∧
      ∀ q, b.build log = .ok q → ∀ hs,
        let w₀ : Traffic α := .ofShared (.ofQueue q)
        let w := w₀.after Session.machine hs
        (∀ t op o, w.ending? t = some (.ended op o) → (∀ text, o ≠ .panicked text) →
            (w₀.warnings t hs ++ w.newWarnings t ≠ [] ↔ ∃ e, o = .failed e)) ∧
          (∀ t op a, w.Answers t op a → (∀ handle, op ≠ .drop handle) →
            (∀ text, a ≠ .panicked text) →
            (w₀.warnings t hs ++ w.newWarnings t ≠ [] ↔ ∃ e, a.error? = some e)) ∧
          ∀ head q', w.shared.queue.ring.peek? = some head →
            w.shared.queue.consult .dequeue head = (.accept, q') →
              ∃ ring, q'.ring.pop? = some (head, ring) := by
  refine ⟨b.build_cases hkeeps, fun q hbuild hs => ?_⟩
  rw [Builder.build] at hbuild
  split at hbuild
  · cases hbuild
  next hpos =>
  cases hbuild
  intro w₀ w
  have hw₀ : w₀.Regular :=
    regular_after b.onEnqueue b.onDequeue log (Nat.pos_of_ne_zero hpos) hmax []
  have hout (t : Int) : (w₀.tasks.get t).isInside = false := rfl
  refine ⟨fun t op o hend hcalm => ?_, fun t op a ha hop hcalm => ?_, fun head q' => ?_⟩
  · obtain ⟨e, he, -, ho⟩ := exists_of_ending hend
    exact warnings_of_finish hw₀ hkeeps (hout t) he ho hcalm
  · exact warnings_of_answers hw₀ hkeeps (hout t) ha hop hcalm
  · exact (hw₀.after hs).exists_pop

/-- A queue with two slots, whose hook rejects zero. -/
def nonzero : Builder Nat where
  capacity := 2
  onEnqueue := some (.ofVerdict fun _ entry =>
    if entry = .item 0 then .reject ⟨"zero", []⟩ else .accept)
  onDequeue := none

/-- Tasks on that queue, which keeps warnings only. -/
def choosy : Traffic Nat := .fresh 2 nonzero.onEnqueue none (.blank (some .warn))

/-- A task has asked for a slot for an item, shown the item to the hook, and gone on once more. -/
def arrival (a : Nat) : List (Happening (Operation Nat)) :=
  [.advance 1, .advance 1, .advance 1, .handOut ⟨1, [.perform (.enqueue a)]⟩]

theorem failures_warned_arrival :
    let w := choosy.after Session.machine (arrival 0)
    let w' := choosy.after Session.machine (arrival 7)
    let failure : Error := .hook .enqueue ⟨"zero", []⟩
    nonzero.build (.blank (some .warn)) = .ok choosy.shared.queue ∧
      (w.ending? 1 = some (.ended (.enqueue 0) (.failed failure)) ∧
        choosy.warnings 1 (arrival 0) ++ w.newWarnings 1 ≠ [] ∧
        choosy.warnings 1 (arrival 0) ++ w.newWarnings 1 = [.enqueueHookFailed ⟨"zero", []⟩]) ∧
      (w'.Answers 1 (.enqueue 7) .done ∧ choosy.warnings 1 (arrival 7) ++ w'.newWarnings 1 = []) ∧
      ∃ ring, w'.shared.queue.ring.pop? = some (.item 7, ring) := by
  have hbuild : nonzero.build (.blank (some .warn)) = .ok choosy.shared.queue := rfl
  have hends : (choosy.after Session.machine (arrival 0)).ending? 1 =
      some (.ended (.enqueue 0) (.failed (.hook .enqueue ⟨"zero", []⟩))) := rfl
  have hanswers : (choosy.after Session.machine (arrival 7)).Answers 1 (.enqueue 7) .done := rfl
  have hpeek : (choosy.after Session.machine (arrival 7)).shared.queue.ring.peek? =
      some (.item 7) := rfl
  have hmax : nonzero.capacity ≤ Semaphore.maxPermits := by decide
  obtain ⟨-, hruns⟩ := failures_warned nonzero (.blank (some .warn)) rfl hmax
  obtain ⟨hcall, -, -⟩ := hruns _ hbuild (arrival 0)
  obtain ⟨-, hanswer, hpop⟩ := hruns _ hbuild (arrival 7)
  have hwarned := (hcall 1 _ _ hends nofun).2 ⟨_, rfl⟩
  have hsilent := mt (hanswer 1 _ _ hanswers nofun nofun).1 nofun
  exact ⟨hbuild, ⟨hends, hwarned, by decide +kernel⟩, ⟨hanswers, not_not.1 hsilent⟩,
    hpop _ _ hpeek rfl⟩

end World

end BoundedQueue
