import BoundedQueue.Proofs.Queue.Undoing
import BoundedQueue.Proofs.Session.Chronicle
import BoundedQueue.Proofs.Session.Rounds

/-!
# Operations that fail at a hook

While nobody waits, a call that finds the permits that it asks for is carried out from beginning to
end before any other task has its turn, because a task that goes on stays at the head of the line
(`RunQueue.tick_of_next`).

* `RunsThrough` says that a call does so: its task is at the head of the line and engaged in it, it
  comes to its outcome after so many turns, and nobody waits before it does.
* `RunsThrough.passes` says that the queue then goes through the sections of the call, one after
  another, so that what is known of whole calls on a queue can be applied.

`hook_failure_undone` says what is left of the queue if the call fails at a hook in the end
(`Queue.LeftBy`): all is as before, but for the registration that a deregistration ended and the
markers that a consumer absorbed.
-/

set_option autoImplicit false

namespace BoundedQueue

variable {α : Type}

/-! ## The head of the line -/

namespace RunQueue

variable {σ ω κ ι ρ : Type} [DecidableEq ι] {m : Machine σ ω κ ι ρ} {s : RunQueue σ ω κ ι ρ}
  {t : Int} {rest : List Int}

/-- While nobody waits, a task that goes on stays at the head of the line. -/
theorem tick_of_next {κ' ρ' : Type} {move : Move κ' ι ρ'} {next : κ'} (hr : s.ready = t :: rest)
    (hwaiting : s.waiting = []) (hturn : (s.world.advance m t).2 = move.turn)
    (hnext : move.next? = some next) : s.tick m = { s with world := (s.world.advance m t).1 } := by
  rw [tick_of_ready m hr, hturn]
  cases move with
  | go => rfl
  | signal => rw [Move.turn, requeue, hwaiting]; rfl
  | wait | finish => cases hnext

theorem waiting_tick_of_blocked {on : ι} (hr : s.ready = t :: rest)
    (hturn : (s.world.advance m t).2 = .blocked on) : (s.tick m).waiting ≠ [] := by
  rw [tick_of_ready m hr, hturn]
  exact List.concat_ne_nil _ _

end RunQueue

namespace World

variable {w w' : Traffic α} {t : Int} {e : Engagement α} {q' : Queue α}
  {move : Move (Phase α) Side (Outcome α)}

/-- A task whose call goes on is engaged in it where the section left it. -/
theorem Stride.engagement_next {p : Phase α} (h : Stride w w' t e q' move)
    (hnext : move.next? = some p) : w'.engagement? t = some { e with spot := .phase p } := by
  obtain ⟨x, new, hx, ht, -⟩ := h.landing
  rw [engagement?, ht, Roster.get_set_self]
  cases hx with
  | @stay move p' hphases =>
    cases move with
    | go | signal => cases hnext; rw [Multiset.singleton_inj.1 hphases]
    | wait | finish => cases hnext
  | finish | again => cases hnext

/-- A section that does not end its call in a panic is a passage. -/
theorem Regular.exists_passage_of_calm (hw : w.Regular) (he : w.engagement? t = some e)
    (hcalm : ∀ text, w.ending? t ≠ some (.ended e.op (.panicked text))) :
    ∃ r q' move, w.shared.queue.Passage e.spot r q' move ∧
      Stride w (w.advance Session.machine t).1 t e q' move ∧
      (w.advance Session.machine t).2 = move.turn := by
  obtain ⟨r, q', move, hp, hsec⟩ := exists_passage hw.sorted hw.within he
  rcases q'.remarked_cases move r with ⟨log, hr⟩ | ⟨log, b, p, -, hr⟩
  · obtain ⟨⟨-, hmove, ⟨log', hq⟩, hland⟩, hturn⟩ := stride_advance he (hsec.trans hr)
    exact ⟨r, q', move, hp, ⟨he, hmove, ⟨log', hq⟩, hland⟩, hturn⟩
  · refine absurd ?_ (hcalm Logbook.panicText)
    rw [ending?, he, Option.bind_some, hsec, hr]

end World

namespace Case

open World

/-- The task at the head of the line is engaged in a call, which comes to its outcome in the last of
`n + 1` turns.  Nobody waits before it does, neither that task nor another one. -/
structure RunsThrough (s : Tasks α) (t : Int) (e : Engagement α) (n : Nat) (o : Outcome α) :
    Prop where
  head : s.ready.head? = some t
  engaged : s.world.engagement? t = some e
  waiting : ∀ k ≤ n, (s.run Session.machine k).waiting = []
  goesOn : ∀ k < n, (s.run Session.machine k).world.ending? t = none
  ends : (s.run Session.machine n).world.ending? t = some (.ended e.op o)

namespace RunsThrough

variable {s : Tasks α} {t : Int} {e : Engagement α} {n : Nat} {o : Outcome α}

theorem exists_ready (h : RunsThrough s t e n o) : ∃ rest, s.ready = t :: rest :=
  List.head?_eq_some_iff.1 h.head

theorem run_eq (h : RunsThrough s t e n o) (k : Nat) :
    s.run Session.machine (k + 1) = (s.tick Session.machine).run Session.machine k := by
  obtain ⟨rest, hready⟩ := h.exists_ready
  exact RunQueue.run_of_ready_ne (by rw [hready]; nofun) k

/-- Until its call is over, the task stays at the head of the line and is engaged in the call. -/
theorem tick {q' : Queue α} {move : Move (Phase α) Side (Outcome α)} {p : Phase α}
    (h : RunsThrough s t e (n + 1) o)
    (hs : Stride s.world (s.world.advance Session.machine t).1 t e q' move)
    (htick : s.tick Session.machine = { s with world := (s.world.advance Session.machine t).1 })
    (hnext : move.next? = some p) :
    RunsThrough (s.tick Session.machine) t { e with spot := .phase p } n o where
  head := by rw [htick]; exact h.head
  engaged := by rw [htick]; exact hs.engagement_next hnext
  waiting k hk := by rw [← h.run_eq]; exact h.waiting _ (Nat.succ_le_succ hk)
  goesOn k hk := by rw [← h.run_eq]; exact h.goesOn _ (Nat.succ_lt_succ hk)
  ends := by rw [← h.run_eq]; exact h.ends

/-- **A call that runs through takes the queue through its sections**, one after another. -/
theorem passes (h : RunsThrough s t e n o) (hw : s.world.Regular)
    (ho : ∀ text, o ≠ .panicked text) :
    s.world.shared.queue.Passes e.spot o
      (s.run Session.machine (n + 1)).world.shared.queue := by
  induction n generalizing s e with
  | zero =>
    obtain ⟨rest, hready⟩ := h.exists_ready
    obtain ⟨r, q', move, hp, hs, -⟩ := hw.exists_passage_of_calm h.engaged fun text hend => by
      cases h.ends.symm.trans hend
      exact ho text rfl
    obtain ⟨log, hlog⟩ := hs.queue_eq
    have hmove : move = .finish o := by
      have hend := h.ends
      rw [RunQueue.run, ending?, hs.engaged, Option.bind_some, hs.section_eq] at hend
      cases move with
      | finish => cases hend; rfl
      | go | wait | signal => cases hend
    rw [h.run_eq, RunQueue.run, RunQueue.tick_of_ready _ hready, RunQueue.world_requeue, hlog]
    exact .finish log (hmove ▸ hp)
  | succ n ih =>
    obtain ⟨rest, hready⟩ := h.exists_ready
    have hgoes : s.world.ending? t = none := h.goesOn 0 (Nat.succ_pos n)
    obtain ⟨r, q', move, hp, hs, hturn⟩ := hw.exists_passage_of_calm h.engaged fun text hend => by
      cases hgoes.symm.trans hend
    obtain ⟨log, hlog⟩ := hs.queue_eq
    rcases hnext : move.next? with - | p
    · cases move with
      | go | signal => cases hnext
      | wait on =>
        refine absurd ?_ (RunQueue.waiting_tick_of_blocked hready hturn)
        exact (congrArg RunQueue.waiting (h.run_eq 0)).symm.trans
          (h.waiting 1 (Nat.le_add_left 1 n))
      | finish =>
        rw [ending?, hs.engaged, Option.bind_some, hs.section_eq] at hgoes
        cases hgoes
    · have htick := RunQueue.tick_of_next hready (h.waiting 0 (Nat.zero_le _)) hturn hnext
      have hrest := ih (h.tick hs htick hnext) (by rw [htick]; exact hw.happen (.advance t))
      rw [← h.run_eq, htick, hlog] at hrest
      exact .step log hp hnext hrest

end RunsThrough

/-- **A call that fails at a hook leaves the queue as it was.**  Whatever was done before, and
whatever got lost, a call that runs through and fails at a hook in the end has not touched the slots
of the ring, the producers and the permits, with two exceptions.  A deregistration has lowered the
count of producers by one.  A consumer has popped the markers that it absorbed, and the last one if
it failed to put that back, and has moved a permit for each.  The items are all still there. -/
theorem hook_failure_undone {capacity : Nat} {onEnqueue onDequeue : Option (Hook α)} {log : Logbook}
    (hpos : 0 < capacity) (hmax : capacity ≤ Semaphore.maxPermits)
    (hs : List (Happening (Operation α))) {s : Tasks α} {t : Int} {e : Engagement α} {c : Call α}
    {n : Nat} {stage : Stage} {cause : Cause}
    (hworld : s.world =
      (Traffic.fresh capacity onEnqueue onDequeue log).after Session.machine hs)
    (hcall : e.spot.begun? = some c)
    (hrun : RunsThrough s t e n (.failed (.hook stage cause))) :
    let q := s.world.shared.queue
    let q' := (s.run Session.machine (n + 1)).world.shared.queue
    q.LeftBy q' stage cause c ∧
      q'.ring.contents.filterMap Entry.item? = q.ring.contents.filterMap Entry.item? := by
  intro q q'
  have hw : s.world.Regular := hworld ▸ regular_after onEnqueue onDequeue log hpos hmax hs
  have hleft : q.LeftBy q' stage cause c := (hrun.passes hw nofun).leftBy hcall
  exact ⟨hleft, hleft.items_eq hw.within.ringSound⟩

/-- A hook that rejects just the third entry that it is shown. -/
def rejectsThird : Hook Nat :=
  .ofVerdict fun shown _ => if shown.length = 2 then .reject ⟨"no", []⟩ else .accept

/-- A hook that accepts nothing but markers. -/
def rejectsItems : Hook Nat :=
  .ofVerdict fun _ entry =>
    match entry with
    | .item _ => .reject ⟨"not that", []⟩
    | .eof => .accept

/-- The ring holds the marker of one producer and an item of another, and the slot is lost for which
the logger panicked at a rejection.  A consumer is at the head of the line. -/
def beforeRejection : Tasks Nat where
  world := (Traffic.fresh 3 (some rejectsThird) (some rejectsItems)
    (.blank (some .warn))).after Session.machine (List.replicate 14 (.advance 1) ++
      [.handOut ⟨1, [.perform .register, .perform .deregister, .perform .register,
        .perform (.enqueue 7), .perform (.trap "enqueue hook"), .perform (.enqueue 8),
        .perform .dequeue]⟩])
  ready := [1]
  waiting := []
  wake := .later

theorem hook_failure_undone_beforeRejection :
    let q := beforeRejection.world.shared.queue
    let q' := (beforeRejection.run Session.machine 7).world.shared.queue
    RunsThrough beforeRejection 1 ⟨.dequeue, .plain, .opening .dequeue, []⟩ 6
        (.failed (.hook .dequeue ⟨"not that", []⟩)) ∧
      (q.ring.contents, q.producers, q.free.permits, q.filled.permits) =
        ([.eof, .item 7], 1, 0, 2) ∧
      q.LeftBy q' .dequeue ⟨"not that", []⟩ .dequeue ∧
      (q'.ring.contents, q'.producers, q'.free.permits, q'.filled.permits) =
        ([.item 7], 1, 1, 1) := by
  have hrun : RunsThrough beforeRejection 1 ⟨.dequeue, .plain, .opening .dequeue, []⟩ 6
      (.failed (.hook .dequeue ⟨"not that", []⟩)) :=
    ⟨rfl, rfl, by decide +kernel, by decide +kernel, rfl⟩
  exact ⟨hrun, by decide +kernel,
    (hook_failure_undone (by decide) (by decide) _ rfl rfl hrun).1, by decide +kernel⟩

end Case

end BoundedQueue
