import BoundedQueue.Proofs.Queue.Leaks
import BoundedQueue.Proofs.Session.Promises
import BoundedQueue.Proofs.Session.Safety

/-!
# Permits that are lost in a run

`World.permits` is the number of all permits, wherever they are.  Every step has its `toll`, which
is what it takes off that number, and the tolls of a task add up over the call in which it is
(`tolls`).

* `Regular.toll_bounds` is about one section: its toll is not negative, and with what the call had
  lost before it stays within what the call has to answer for afterwards, which is a single permit
  at most and nothing unless the call is going to fail.
* Clearings are apart.  One that succeeds sets the number of permits to the capacity
  (`Regular.cleared_of_answers`).  One that fails takes no permit, even where it has emptied the
  ring by then: `Regular.toll_of_not_cleared`.
* `tolls_bounds` adds up the sections of a call, by induction on the run.  Steps of other tasks come
  in between, and have tolls of their own.  With the last section of the call it gives what the call
  has taken when it ends: `tolls_of_ending`, and `tolls_of_not_cleared` for a clearing that fails.

`permits_leak` says that a clearing sets the number of permits back to the capacity, that nothing
else raises it, and what any other call has taken off it in all when it ends: nothing, or a single
permit if it panicked, or failed at a poisoned lock or because the queue was at odds with itself.
-/

set_option autoImplicit false

namespace BoundedQueue

variable {α : Type}

/-- The permits that a task may have lost in the call in which it is. -/
def Task.leak (task : Task (Operation α) (Job α)) : Nat :=
  match task.standing with
  | .inside _ job => job.phase.leak
  | _ => 0

namespace World

variable {w w' : Traffic α} {t : Int} {e : Engagement α} {q' : Queue α}
  {move : Move (Phase α) Side (Outcome α)}

/-! ## All permits -/

/-- All permits: those of both kinds that are free to be taken, and those that calls in progress
have taken and not yet returned or turned into one of the other kind. -/
def permits (w : Traffic α) : Nat := w.shared.queue.permitsInAll w.phases

theorem Quiet.permits_eq (h : Quiet w w') (hw : w.tasks.Sorted) : w'.permits = w.permits := by
  obtain ⟨log, hq⟩ := h.queue_eq
  rw [permits, permits, hq, h.phases_eq hw]
  rfl

theorem Stride.permits_eq (h : Stride w w' t e q' move) (hw : w.tasks.Sorted) :
    w'.permits = q'.permitsInAll (move.phases + Stride.others w t) :=
  h.keeps (I := fun q phases => q.permitsInAll phases = _) hw (fun _ _ _ => id)
    (fun q phases hq => (q.sides_askFilled phases).2.2.trans hq) rfl

/-! ## Clearing -/

/-- A task that reports that it has cleared the queue has done so in this step. -/
theorem Regular.cleared_of_answers (hw : w.Regular) (h : w.Answers t .clear .done) :
    ∃ r q', w.shared.queue.Passage (.opening .clear) r q' (.finish .done) ∧
      (w.advance Session.machine t).1.permits = q'.permitsInAll 0 := by
  -- the report is one that the step adds
  have hreported {new : List (Occurrence (Operation α) (Answer α))}
      (hnew : (w.advance Session.machine t).1.events = new.map (Event.mk t) ++ w.events) :
      ∃ x ∈ new.map (Event.mk t), x.isRenewal = true := by
    rw [h] at hnew
    have hnew : [⟨t, .completed .clear .done⟩] ++ w.events = _ ++ w.events := hnew
    exact ⟨_, List.append_cancel_right hnew ▸ List.mem_cons_self, rfl⟩
  rcases hw.step_cases t with ⟨he, -⟩ | ⟨e, r, q', move, he, hp, hs | ⟨-, b, p, hs⟩⟩
  · obtain ⟨-, new, haside, hnew⟩ := quiet_advance he
    obtain ⟨x, hx, hrenewal⟩ := hreported hnew
    cases (haside.isRenewal_eq x hx).symm.trans hrenewal
  · obtain ⟨x, new, hx, -, hnew⟩ := hs.landing
    obtain ⟨x, hmem, hrenewal⟩ := hreported hnew
    by_cases hclear : e.spot = .opening .clear ∧ move = .finish .done
    · obtain ⟨hspot, rfl⟩ := hclear
      have halone := hs.alone hspot
      rw [hspot] at hp
      exact ⟨r, q', hp, by rw [hs.permits_eq hw.sorted, halone]; rfl⟩
    · cases (hw.renewal_of_landing he hx hclear x hmem).symm.trans hrenewal
  · obtain ⟨x, new, hx, -, hnew⟩ := hs.landing
    obtain ⟨x, hmem, hrenewal⟩ := hreported hnew
    cases (hw.renewal_of_landing he hx (fun hm => nomatch hm.2) x hmem).symm.trans hrenewal

/-- An engaged task lands where its section leaves it. -/
theorem Regular.exists_landing (hw : w.Regular) (he : w.engagement? t = some e) :
    ∃ x new, Landing e (w.shared.queue.sectionAt e.spot).2 x new ∧
      (w.advance Session.machine t).1.tasks = w.tasks.set t x ∧
      (w.advance Session.machine t).1.events = new.map (Event.mk t) ++ w.events := by
  obtain ⟨r, q', move, hp, hs⟩ := hw.stride he
  rcases hs with hs | ⟨-, b, p, hs⟩
  · rw [hs.section_eq]
    exact hs.landing
  · rw [hs.section_eq]
    exact hs.landing

/-- A task that clears the queue reports it. -/
theorem Regular.answers_of_cleared (hw : w.Regular) (he : w.engagement? t = some e)
    (hspot : e.spot = .opening .clear)
    (hdone : (w.shared.queue.sectionAt e.spot).2 = .finish .done) : w.Answers t .clear .done := by
  have hop := (hw.op_eq_clear_iff he).2 hspot
  obtain ⟨-, hserves⟩ := hw.jobs.reaches he
  obtain ⟨x, new, hx, -, hnew⟩ := hw.exists_landing he
  obtain ⟨op, purpose, spot, todo⟩ := e
  obtain rfl := hop
  cases hserves
  rw [hdone] at hx
  generalize hm : Move.finish Outcome.done = move at hx
  cases hx with
  | stay hphases => subst hm; simp [Move.phases] at hphases
  | finish ha => cases hm; cases ha; exact hnew
  | again => cases hm

/-! ## Tolls -/

/-- What the next step of a task takes off the number of permits. -/
def toll (w : Traffic α) (t : Int) : Int :=
  w.permits - (w.advance Session.machine t).1.permits

/-- What the call in which a task is after a run has taken off the number of permits so far. -/
def tolls (w : Traffic α) (t : Int) : List (Happening (Operation α)) → Int
  | [] => 0
  | .handOut _ :: hs => w.tolls t hs
  | .advance u :: hs =>
    let v := w.after Session.machine hs
    if u ≠ t then w.tolls t hs
    else if (v.ending? t).isSome then 0
    else w.tolls t hs + v.toll t

theorem leak_of_engagement (h : w.engagement? t = some e) :
    (w.tasks.get t).leak = e.spot.leak := by
  cases engaged h with
  | inside ht | opens ht => rw [ht]; rfl

theorem Quiet.leak_eq (h : Quiet w w') (u : Int) :
    (w'.tasks.get u).leak = (w.tasks.get u).leak := by
  have hout {task : Task (Operation α) (Job α)} (ht : task.isInside = false) : task.leak = 0 := by
    obtain ⟨standing, todo⟩ := task
    cases standing with
    | inside => cases ht
    | idle | paused => rfl
  rcases h.get_cases u with heq | ⟨hbefore, hafter⟩
  · rw [heq]
  · rw [hout hbefore, hout hafter]

theorem Regular.toll_of_quiet (hw : w.Regular) (he : w.engagement? t = none) : w.toll t = 0 := by
  rw [toll, (quiet_advance he).1.permits_eq hw.sorted, Int.sub_self]

/-- The toll of a step does not depend on what the calls of other tasks hold. -/
theorem Stride.toll_eq (hs : Stride w (w.advance Session.machine t).1 t e q' move)
    (hw : w.tasks.Sorted) : w.toll t =
      (w.shared.queue.permitsInAll e.spot.phases : Int) - q'.permitsInAll move.phases := by
  have hbefore : w.permits = w.shared.queue.permitsInAll (e.spot.phases + Stride.others w t) :=
    congrArg _ (hs.before hw)
  have hafter := hs.permits_eq hw
  rw [Queue.permitsInAll_add] at hbefore hafter
  rw [toll]
  omega

/-- **The toll of a section** is not negative, and within what its call has to answer for. -/
theorem Regular.toll_bounds (hw : w.Regular) (he : w.engagement? t = some e)
    (hc : e.spot ≠ .opening .clear) :
    0 ≤ w.toll t ∧ e.spot.leak + w.toll t ≤ (w.shared.queue.sectionAt e.spot).2.leak := by
  obtain ⟨r, q', move, hp, hs⟩ := hw.stride he
  have hbooks := (hp.books_le hw.within.ringSound hc).2
  have hleak := hp.leak_le hc
  rcases hs with hs | ⟨-, b, p, hs⟩
  · rw [hs.section_eq, hs.toll_eq hw.sorted]
    omega
  · -- the logger panics, and the call gives up what it holds
    have hmost := q'.leak_le_of_move move
    have hheld : q'.permitsInAll 0 ≤ q'.permitsInAll move.phases := by
      rw [← zero_add move.phases, Queue.permitsInAll_add]
      omega
    have htoll : w.toll t = (w.shared.queue.permitsInAll e.spot.phases : Int) -
      q'.permitsInAll 0 := hs.toll_eq hw.sorted
    rw [hs.section_eq, htoll]
    show _ ∧ _ ≤ ((1 : Nat) : Int)
    omega

/-- A section that clears the queue is the last one of its call. -/
theorem Regular.finish_of_clear (hw : w.Regular) (he : w.engagement? t = some e)
    (hspot : e.spot = .opening .clear) :
    ∃ o, (w.shared.queue.sectionAt e.spot).2 = .finish o := by
  obtain ⟨r, q', move, hp, hs⟩ := hw.stride he
  rcases hs with hs | ⟨-, b, p, hs⟩
  · rw [hspot] at hp
    obtain ⟨⟨o, rfl⟩, -⟩ := hp.clear_cases
    exact ⟨o, hs.section_eq⟩
  · exact ⟨_, hs.section_eq⟩

/-- **A clearing that fails takes no permit**, even where it stops half-way: it has popped the
entries by then, but sets the permits only after the producers lock. -/
theorem Regular.toll_of_not_cleared (hw : w.Regular) (he : w.engagement? t = some e)
    (hspot : e.spot = .opening .clear)
    (hfails : (w.shared.queue.sectionAt e.spot).2 ≠ .finish .done) : w.toll t = 0 := by
  obtain ⟨r, q', move, hp, hs⟩ := hw.stride he
  rw [hspot] at hp
  obtain ⟨⟨o, rfl⟩, -⟩ := hp.clear_cases
  obtain ⟨hdone, htoll⟩ : o ≠ .done ∧ w.toll t =
      (w.shared.queue.permitsInAll e.spot.phases : Int) - q'.permitsInAll 0 := by
    rcases hs with hs | ⟨hr, b, p, hs⟩
    · refine ⟨?_, hs.toll_eq hw.sorted⟩
      rintro rfl
      exact hfails hs.section_eq
    · -- a clearing that succeeds has nothing to remark, so that the logger cannot panic at it
      refine ⟨?_, hs.toll_eq hw.sorted⟩
      rintro rfl
      exact hr hp.of_cleared.1
  rw [htoll, hspot, hp.permits_of_not_cleared fun hm => hdone (Move.finish.inj hm)]
  exact Int.sub_self _

/-- Only a clearing that succeeds raises the number of permits. -/
theorem Regular.permits_le (hw : w.Regular) (x : Happening (Operation α))
    (hx : ∀ t, x = .advance t → ¬w.Answers t .clear .done) :
    (w.happen Session.machine x).permits ≤ w.permits := by
  cases x with
  | handOut a => exact ((quiet_handOut w a).permits_eq hw.sorted).le
  | advance t =>
    suffices htoll : 0 ≤ w.toll t by
      rw [toll] at htoll
      show (w.advance Session.machine t).1.permits ≤ w.permits
      omega
    rcases he : w.engagement? t with - | e
    · exact (hw.toll_of_quiet he).ge
    by_cases hspot : e.spot = .opening .clear
    · exact (hw.toll_of_not_cleared he hspot fun hdone =>
        hx t rfl (hw.answers_of_cleared he hspot hdone)).ge
    · exact (hw.toll_bounds he hspot).1

/-- A call that goes on may have lost what its section may have. -/
theorem Landing.leak_eq {x : Task (Operation α) (Job α)}
    {new : List (Occurrence (Operation α) (Answer α))} (h : Landing e move x new)
    (hgoes : ¬∃ o, move = .finish o) : x.leak = move.leak := by
  cases h with
  | @stay move p hphases =>
    cases move with
    | go | wait | signal => rw [← Multiset.singleton_inj.1 hphases]; rfl
    | finish o => exact absurd ⟨o, rfl⟩ hgoes
  | finish | again => exact absurd ⟨_, rfl⟩ hgoes

theorem ending?_eq_none (h : w.engagement? t = none) : w.ending? t = none := by
  rw [ending?, h]
  rfl

theorem ending?_isSome (h : w.engagement? t = some e) :
    (w.ending? t).isSome = true ↔ ∃ o, (w.shared.queue.sectionAt e.spot).2 = .finish o := by
  rw [ending?, h, Option.bind_some]
  split
  · next o ho => exact ⟨fun _ => ⟨o, ho⟩, fun _ => rfl⟩
  · next hne =>
    constructor
    · intro hnone
      cases hnone
    · rintro ⟨o, ho⟩
      exact absurd ho (hne o)

/-- A call ends when its section says so. -/
theorem exists_of_ending {op : Operation α} {o : Outcome α}
    (h : w.ending? t = some (.ended op o)) : ∃ e, w.engagement? t = some e ∧ e.op = op ∧
      (w.shared.queue.sectionAt e.spot).2 = .finish o := by
  rcases he : w.engagement? t with - | e
  · cases (ending?_eq_none he).symm.trans h
  · rw [ending?, he, Option.bind_some] at h
    split at h
    · next o' ho => cases h; exact ⟨e, rfl, rfl, ho⟩
    · cases h

/-- What the call of a task has taken off the number of permits so far is not negative, and within
what it has to answer for. -/
theorem tolls_bounds {w₀ : Traffic α} (hregular : ∀ ks, (w₀.after Session.machine ks).Regular)
    (hs : List (Happening (Operation α))) (t : Int) :
    0 ≤ w₀.tolls t hs ∧ w₀.tolls t hs ≤ ((w₀.after Session.machine hs).tasks.get t).leak := by
  induction hs with
  | nil => exact ⟨Int.le_refl 0, Int.natCast_nonneg _⟩
  | cons x hs ih =>
    have hw := hregular hs
    rw [after_cons]
    cases x with
    | handOut a => rw [tolls, happen, (quiet_handOut _ a).leak_eq]; exact ih
    | advance u =>
      rw [tolls, happen]
      by_cases hu : u = t
      · subst hu
        rw [if_neg (not_not_intro rfl)]
        rcases he : (w₀.after Session.machine hs).engagement? u with - | e
        · rw [ending?_eq_none he, hw.toll_of_quiet he, (quiet_advance he).1.leak_eq, add_zero]
          exact ih
        · rw [leak_of_engagement he] at ih
          obtain ⟨x, new, hx, ht, -⟩ := hw.exists_landing he
          rw [ht, Roster.get_set_self]
          by_cases hend : ((w₀.after Session.machine hs).ending? u).isSome = true
          · rw [if_pos hend]
            exact ⟨Int.le_refl 0, Int.natCast_nonneg _⟩
          · rw [if_neg hend]
            have hgoes := fun h => hend ((ending?_isSome he).2 h)
            obtain ⟨hle, hleak⟩ :=
              hw.toll_bounds he fun hspot => hgoes (hw.finish_of_clear he hspot)
            rw [hx.leak_eq hgoes]
            omega
      · rw [if_pos hu, advance_get_of_ne _ _ _ (Ne.symm hu)]
        exact ih

/-- A clearing is over with its first section, before which it can have lost nothing. -/
theorem tolls_of_not_cleared {w₀ : Traffic α}
    (hregular : ∀ ks, (w₀.after Session.machine ks).Regular)
    {hs : List (Happening (Operation α))} (hw : w₀.after Session.machine hs = w)
    (he : w.engagement? t = some e) (hspot : e.spot = .opening .clear)
    (hfails : (w.shared.queue.sectionAt e.spot).2 ≠ .finish .done) :
    w₀.tolls t hs + w.toll t = 0 := by
  subst hw
  obtain ⟨hnonneg, hwithin⟩ := tolls_bounds hregular hs t
  rw [leak_of_engagement he, hspot] at hwithin
  rw [(hregular hs).toll_of_not_cleared he hspot hfails, add_zero]
  exact le_antisymm hwithin hnonneg

/-- **What a call has taken off when it ends** is not negative, and within what its answer admits. -/
theorem tolls_of_ending {w₀ : Traffic α} (hregular : ∀ ks, (w₀.after Session.machine ks).Regular)
    {hs : List (Happening (Operation α))} (hw : w₀.after Session.machine hs = w)
    (he : w.engagement? t = some e) (hspot : e.spot ≠ .opening .clear) {o : Outcome α}
    (ho : (w.shared.queue.sectionAt e.spot).2 = .finish o) :
    0 ≤ w₀.tolls t hs + w.toll t ∧ w₀.tolls t hs + w.toll t ≤ o.leak := by
  subst hw
  obtain ⟨hnonneg, hwithin⟩ := tolls_bounds hregular hs t
  rw [leak_of_engagement he] at hwithin
  obtain ⟨hle, hleak⟩ := (hregular hs).toll_bounds he hspot
  rw [ho] at hleak
  have hleak : _ + (w₀.after Session.machine hs).toll t ≤ o.leak := hleak
  omega

section Fresh

variable {capacity : Nat} (onEnqueue onDequeue : Option (Hook α)) (log : Logbook)

/-- **Permits are lost by calls that fail, and by each at most one.**  At first there are as many as
slots, and so there are after every clearing that succeeds; nothing else makes any.  When any other
call ends, a clearing that fails among them, its sections have taken nothing off their number, or
one permit at most if it panicked, or failed at a poisoned lock or because the queue was at odds
with itself.  A clearing that fails takes nothing. -/
theorem permits_leak (hpos : 0 < capacity) (hmax : capacity ≤ Semaphore.maxPermits)
    (hs : List (Happening (Operation α))) :
    let w₀ := Traffic.fresh capacity onEnqueue onDequeue log
    let w := w₀.after Session.machine hs
    w₀.permits = capacity ∧
      (∀ t, w.Answers t .clear .done → (w.advance Session.machine t).1.permits = capacity) ∧
      (∀ x, (∀ t, x = .advance t → ¬w.Answers t .clear .done) →
        (w.happen Session.machine x).permits ≤ w.permits) ∧
      ∀ t op o, w.ending? t = some (.ended op o) → (op = .clear → o ≠ .done) →
        0 ≤ w₀.tolls t hs + w.toll t ∧ w₀.tolls t hs + w.toll t ≤ o.leak ∧
          (op = .clear → w₀.tolls t hs + w.toll t = 0) := by
  intro w₀ w
  have hregular (ks : List (Happening (Operation α))) : (w₀.after Session.machine ks).Regular :=
    regular_after onEnqueue onDequeue log hpos hmax ks
  have hw : w.Regular := hregular hs
  refine ⟨rfl, fun t ht => ?_, hw.permits_le, fun t op o hend hfails => ?_⟩
  · obtain ⟨r, q', hp, hpermits⟩ := hw.cleared_of_answers ht
    rw [hpermits, hp.of_cleared.2]
    exact (producers_le_after onEnqueue onDequeue log hpos hmax hs).1
  · obtain ⟨e, he, rfl, ho⟩ := exists_of_ending hend
    by_cases hspot : e.spot = .opening .clear
    · have hne : (w.shared.queue.sectionAt e.spot).2 ≠ .finish .done := by
        rw [ho]
        rintro ⟨⟩
        exact hfails ((hw.op_eq_clear_iff he).2 hspot) rfl
      rw [tolls_of_not_cleared hregular rfl he hspot hne]
      exact ⟨Int.le_refl 0, Int.natCast_nonneg _, fun _ => rfl⟩
    · obtain ⟨hnonneg, hwithin⟩ := tolls_of_ending hregular rfl he hspot ho
      exact ⟨hnonneg, hwithin, fun hop => absurd ((hw.op_eq_clear_iff he).1 hop) hspot⟩

end Fresh

/-- A queue whose hook accepts nothing. -/
def fussy : Traffic Nat :=
  .fresh 2 (some (.ofVerdict fun _ _ => .reject ⟨"no", []⟩)) none (.blank (some .warn))

/-- The logger panics at the report that an item was rejected, before the slot is given back; the
queue is to be cleared next. -/
def rejection : List (Happening (Operation Nat)) :=
  [.advance 1, .advance 1,
    .handOut ⟨1, [.perform (.trap "enqueue hook"), .perform (.enqueue 7), .perform .clear]⟩]

/-- The logger panics at a registration, which poisons the producers lock; an item is put, and the
queue is to be cleared next. -/
def obstruction : List (Happening (Operation Nat)) :=
  [.advance 1, .advance 1, .advance 1, .advance 1, .advance 1, .advance 1,
    .handOut ⟨1, [.perform (.trap ""), .perform .register, .perform (.enqueue 7), .perform .clear]⟩]

theorem permits_leak_rejection :
    let w := fussy.after Session.machine rejection
    let w' := fussy.after Session.machine (.advance 1 :: rejection)
    let v₀ : Traffic Nat := .fresh 1 none none (.blank (some .trace))
    let v := v₀.after Session.machine obstruction
    (w.ending? 1 = some (.ended (.enqueue 7) (.panicked Logbook.panicText)) ∧
      fussy.tolls 1 rejection + w.toll 1 ≤ 1 ∧ fussy.tolls 1 rejection + w.toll 1 = 1) ∧
    (w.permits = 2 ∧ w'.permits ≤ w.permits ∧ w'.permits = 1) ∧
    (w'.Answers 1 .clear .done ∧ (w'.advance Session.machine 1).1.permits = 2) ∧
    v.ending? 1 = some (.ended .clear (.failed (.poisoned "producers"))) ∧
      v₀.tolls 1 obstruction + v.toll 1 = 0 ∧ v.shared.queue.len = 1 ∧
      (v.advance Session.machine 1).1.shared.queue.len = 0 := by
  have hclears : (fussy.after Session.machine (.advance 1 :: rejection)).Answers 1 .clear .done :=
    rfl
  have hmax : 2 ≤ Semaphore.maxPermits := by decide
  have hpoisoned : ((Traffic.fresh 1 none none (.blank (some .trace))).after Session.machine
      obstruction).ending? 1 = some (.ended .clear (.failed (.poisoned "producers"))) := rfl
  intro w w' v₀ v
  have hpanics : w.ending? 1 = some (.ended (.enqueue 7) (.panicked Logbook.panicText)) := rfl
  -- what is answered here is the enqueueing
  have hnot (t : Int) (ht : (.advance 1 : Happening (Operation Nat)) = .advance t) :
      ¬w.Answers t .clear .done := by
    cases ht
    have hreports : w.Answers 1 (.enqueue 7) (.panicked Logbook.panicText) := rfl
    intro h
    cases hreports.symm.trans h
  obtain ⟨-, -, hle, hcall⟩ := permits_leak (some (.ofVerdict fun _ _ => .reject ⟨"no", []⟩)) none
    (.blank (some .warn)) Nat.two_pos hmax rejection
  obtain ⟨-, hset, -, -⟩ := permits_leak (some (.ofVerdict fun _ _ => .reject ⟨"no", []⟩)) none
    (.blank (some .warn)) Nat.two_pos hmax (.advance 1 :: rejection)
  obtain ⟨-, -, -, hfails⟩ := permits_leak none none (.blank (some .trace)) Nat.one_pos (by decide)
    obstruction
  have htoll : v₀.tolls 1 obstruction + v.toll 1 = 0 := (hfails 1 _ _ hpoisoned (by simp)).2.2 rfl
  exact ⟨⟨hpanics, (hcall 1 _ _ hpanics (by simp)).2.1, by decide⟩,
    ⟨by decide, hle (.advance 1) hnot, by decide⟩, ⟨hclears, hset 1 hclears⟩, hpoisoned,
    htoll, by decide +kernel, by decide +kernel⟩

end World

end BoundedQueue
