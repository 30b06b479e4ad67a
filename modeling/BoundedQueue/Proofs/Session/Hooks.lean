import BoundedQueue.Proofs.Queue.Hooks
import BoundedQueue.Proofs.Session.Finality

/-!
# What hooks see of a run

`HooksSee` says what the two hooks of a queue have seen since the ring was emptied, and what becomes
of the ring and of the call where they object.

* Every entry that went in or came out was shown and accepted, in order, and nothing else was
  accepted (`pushed_eq`, `popped_eq`); what came in has come out or is still there (`flow_eq`).
* An entry that a hook does not accept leaves the ring as it is, and its call is going to fail
  (`kept`).  It stays so to the end of the call (`failing`).
* A head that was rejected is the one that the dequeue hook is shown next (`again`), whichever task
  asks for it.

`Regular.stride_notes` is where it comes from: a step leaves the ring as a passage does, and its
marks tell what the passage adds to the history.  `hooks_see_history` says that `HooksSee` holds
throughout every run that begins with both hooks, whatever they decide, and also if others are
installed in their places.
-/

set_option autoImplicit false

namespace BoundedQueue

variable {α : Type}

namespace World

variable {w w' : Traffic α} {t : Int} {e : Engagement α}

/-- A call that has failed, or is going to, is over after a step or still going to fail. -/
theorem Stride.failing {q' : Queue α} {move : Move (Phase α) Side (Outcome α)}
    (hs : Stride w w' t e q' move)
    (hmove : move.error?.isSome = true ∨ ∃ text, move = .finish (.panicked text)) :
    ∀ p ∈ (w'.tasks.get t).phases, p.error?.isSome = true := by
  obtain ⟨x, new, hx, ht, -⟩ := hs.landing
  rw [ht, Roster.get_set_self]
  cases hx with
  | stay hphases =>
    intro p hp
    rw [Multiset.mem_singleton.1 hp]
    rcases hmove with herror | ⟨text, rfl⟩
    · rwa [Move.error?_of_mem (hphases ▸ Multiset.mem_singleton_self _)] at herror
    · simp [Move.phases] at hphases
  | finish => exact fun p hp => absurd hp (Multiset.notMem_zero p)
  | again =>
    rcases hmove with herror | ⟨text, htext⟩
    · cases herror
    · cases htext

/-- What can be said of the ring and the hooks. -/
structure HooksSee (w : Traffic α) : Prop where
  /-- What the enqueue hook accepted is what was pushed. -/
  pushed_eq : (recent w.shared.queue.history).filterMap (Note.accepted? .enqueue) =
    (recent w.shared.queue.history).filterMap Note.pushed?
  /-- What the dequeue hook accepted is what was popped. -/
  popped_eq : (recent w.shared.queue.history).filterMap (Note.accepted? .dequeue) =
    (recent w.shared.queue.history).filterMap Note.popped?
  /-- Oldest first: what the enqueue hook accepted is what the dequeue hook accepted, followed by
  what is in the ring. -/
  flow_eq : ((recent w.shared.queue.history).filterMap (Note.accepted? .enqueue)).reverse =
    ((recent w.shared.queue.history).filterMap (Note.accepted? .dequeue)).reverse ++
      w.shared.queue.ring.contents
  /-- When a hook does not accept an entry, the ring is as before, and the call is over or going to
  fail. -/
  kept : ∀ t stage entry verdict, .noted (.consulted stage entry verdict) ∈ w.marks t →
    verdict ≠ .accept →
      (w.advance Session.machine t).1.shared.queue.ring = w.shared.queue.ring ∧
        ∀ p ∈ ((w.advance Session.machine t).1.tasks.get t).phases, p.error?.isSome = true
  /-- A call that is going to fail leaves the ring as it is. -/
  failing : ∀ t, (∃ p ∈ (w.tasks.get t).phases, p.error?.isSome = true) →
    (w.advance Session.machine t).1.shared.queue.ring = w.shared.queue.ring ∧
      ∀ p ∈ ((w.advance Session.machine t).1.tasks.get t).phases, p.error?.isSome = true
  /-- The dequeue hook is shown a head that it rejected again, before any other entry. -/
  again : ∀ t entry verdict refused cause,
    lastAsked? w.shared.queue.history = some (refused, .reject cause) →
      .noted (.consulted .dequeue entry verdict) ∈ w.marks t → entry = refused

/-- A step leaves the ring as a passage does, its marks tell what the passage adds to the history,
and the call goes on or ends as in the passage, or with a panic. -/
theorem Regular.stride_notes (hw : w.Regular) (he : w.engagement? t = some e) :
    ∃ r q' move, w.shared.queue.Passage e.spot r q' move ∧
      q'.history = (w.marks t).filterMap Mark.note? ++ w.shared.queue.history ∧
      (w.advance Session.machine t).1.shared.queue.ring = q'.ring ∧
      ∃ q'' move', Stride w (w.advance Session.machine t).1 t e q'' move' ∧
        (move' = move ∨ ∃ text, move' = .finish (.panicked text)) := by
  obtain ⟨r, q', move, hp, hs | ⟨-, b, p, hs⟩⟩ := hw.stride he
  · obtain ⟨log, hq⟩ := hs.queue_eq
    refine ⟨r, q', move, hp, ?_, by rw [hq], _, _, hs, .inl rfl⟩
    rw [← noted_marks hw t, hq]
  · obtain ⟨log, hq⟩ := hs.queue_eq
    refine ⟨r, q', move, hp, ?_, by rw [hq], _, _, hs, .inr ⟨_, rfl⟩⟩
    rw [← noted_marks hw t, hq]

/-- What becomes of the ring and of the call when a hook does not accept an entry. -/
theorem Regular.kept (hw : w.Regular) {stage : Stage} {entry : Entry α} {verdict : Verdict}
    (hm : .noted (.consulted stage entry verdict) ∈ w.marks t) (hv : verdict ≠ .accept) :
    (w.advance Session.machine t).1.shared.queue.ring = w.shared.queue.ring ∧
      ∀ p ∈ ((w.advance Session.machine t).1.tasks.get t).phases, p.error?.isSome = true := by
  obtain ⟨e, he⟩ := exists_engagement_of_noted hm
  obtain ⟨r, q', move, hp, hn, hring, q'', move', hs, hmove⟩ := hw.stride_notes he
  have hconsulted := hp.consulted hn (mem_noted.1 hm)
  refine ⟨hring.trans (hconsulted.ring_eq hv), hs.failing ?_⟩
  rcases hmove with rfl | hpanic
  · cases verdict with
    | accept => exact absurd rfl hv
    | reject cause => exact .inl (by rw [(hconsulted.rejected cause rfl).2]; rfl)
    | panic text => exact .inr ⟨text, hconsulted.panicked text rfl⟩
  · exact .inr hpanic

/-- What becomes of the ring when a call is going to fail. -/
theorem Regular.failing (hw : w.Regular)
    (h : ∃ p ∈ (w.tasks.get t).phases, p.error?.isSome = true) :
    (w.advance Session.machine t).1.shared.queue.ring = w.shared.queue.ring ∧
      ∀ p ∈ ((w.advance Session.machine t).1.tasks.get t).phases, p.error?.isSome = true := by
  obtain ⟨p, hmem, herror⟩ := h
  obtain ⟨error, herror⟩ := Option.isSome_iff_exists.1 herror
  rcases hx : w.tasks.get t with ⟨standing, todo⟩
  rw [hx] at hmem
  cases standing with
  | idle | paused => exact absurd hmem (Multiset.notMem_zero p)
  | inside op job =>
    have he : w.engagement? t = some ⟨op, job.purpose, .phase job.phase, todo⟩ := by
      rw [engagement?, hx]
    obtain ⟨r, q', move, hp, -, hring, q'', move', hs, hmove⟩ := hw.stride_notes he
    obtain ⟨hsame, hfails⟩ := hp.of_error hmem herror
    refine ⟨hring.trans hsame, hs.failing ?_⟩
    rcases hmove with rfl | hpanic
    · exact .inl (by rw [hfails]; rfl)
    · exact .inr hpanic

/-- The dequeue hook is shown the head of the ring. -/
theorem Regular.peek_of_asked (hw : w.Regular) {entry : Entry α} {verdict : Verdict}
    (hm : .noted (.consulted .dequeue entry verdict) ∈ w.marks t) :
    w.shared.queue.ring.peek? = some entry := by
  obtain ⟨e, he⟩ := exists_engagement_of_noted hm
  obtain ⟨r, q', move, hp, hn, -⟩ := hw.stride_notes he
  rcases (hp.consulted hn (mem_noted.1 hm)).place with ⟨hstage, -⟩ | ⟨-, -, hpeek⟩
  · cases hstage
  · exact hpeek

section Fresh

variable {capacity : Nat} (onEnqueue onDequeue : Hook α) (log : Logbook)

/-- The hooks witness what happens in every run that begins with both of them. -/
theorem witnessed_after (hpos : 0 < capacity) (hmax : capacity ≤ Semaphore.maxPermits)
    (hs : List (Happening (Operation α))) :
    ((Traffic.fresh capacity (some onEnqueue) (some onDequeue) log).after Session.machine
      hs).shared.queue.Witnessed := by
  induction hs with
  | nil => exact ⟨fun stage => by cases stage <;> rfl, rfl, rfl, fun _ _ h => nomatch h⟩
  | cons x hs ih =>
    have hring := (within_after (some onEnqueue) (some onDequeue) log hpos hmax hs).ringSound
    refine (course_after (some onEnqueue) (some onDequeue) log hpos hmax x hs).keeps
      (I := fun q _ => q.Witnessed) (sorted_fresh _ _ log capacity hs) ih ?_ (fun _ _ => id) ?_ ?_
    · intro q log phases hq
      exact hq.of_same
        (fun stage => by cases stage; exacts [hq.hooked .enqueue, hq.hooked .dequeue]) rfl rfl
    · intro q b p phases others hq
      exact hq.of_same
        (fun stage => by cases stage; exacts [hq.hooked .enqueue, hq.hooked .dequeue]) rfl rfl
    · intro spot r q' move others _ _ hp
      exact hp.witnessed hring ih

/-- **Hooks see exactly what happens to the ring.**  In every run that begins with both hooks,
whatever these decide and whoever panics: since the ring was emptied, the enqueue hook has accepted
just what was pushed and the dequeue hook just what was popped, so that the former is the latter
followed by what is in the ring.  What a hook does not accept leaves the ring as it is, and a head
that was rejected is shown again. -/
theorem hooks_see_history (hpos : 0 < capacity) (hmax : capacity ≤ Semaphore.maxPermits)
    (hs : List (Happening (Operation α))) :
    ((Traffic.fresh capacity (some onEnqueue) (some onDequeue) log).after Session.machine
      hs).HooksSee := by
  have hw := regular_after (some onEnqueue) (some onDequeue) log hpos hmax hs
  obtain ⟨-, hpushed, hpopped, hrefused⟩ := witnessed_after onEnqueue onDequeue log hpos hmax hs
  have hflow := flow_after (some onEnqueue) (some onDequeue) log hpos hmax hs
  refine ⟨hpushed, hpopped, ?_, fun t stage entry verdict => hw.kept, fun t => hw.failing, ?_⟩
  · rw [hpushed, hflow, hpopped, List.reverse_append, List.reverse_reverse]
  · intro t entry verdict refused cause hlast hm
    have hpeek := hrefused refused cause hlast
    exact Option.some_inj.1 ((hw.peek_of_asked hm).symm.trans hpeek)

end Fresh

/-- An enqueue hook that rejects a certain item, and a dequeue hook that rejects what it is shown
first. -/
def picky : Traffic Nat :=
  .fresh 2
    (some (.ofVerdict fun _ entry => if entry = .item 3 then .reject ⟨"no", []⟩ else .accept))
    (some (.ofVerdict fun shown _ => if shown = [] then .reject ⟨"later", []⟩ else .accept))
    (.blank none)

/-- The item is rejected and another one is put, which is rejected when it is to be taken; then
somebody comes for it again. -/
def rejections : List (Happening (Operation Nat)) :=
  [.advance 2, .advance 2, .advance 2, .advance 2, .advance 2,
    .handOut ⟨2, [.perform .dequeue, .perform .dequeue]⟩,
    .advance 1, .advance 1, .advance 1, .advance 1, .advance 1, .advance 1, .advance 1, .advance 1,
    .handOut ⟨1, [.perform (.enqueue 3), .perform (.enqueue 7)]⟩]

theorem hooks_see_history_rejections :
    (0 < 2 ∧ 2 ≤ Semaphore.maxPermits) ∧ (picky.after Session.machine rejections).HooksSee ∧
      lastAsked? (picky.after Session.machine rejections).shared.queue.history =
        some (.item 7, .reject ⟨"later", []⟩) ∧
      (recent (picky.after Session.machine rejections).shared.queue.history).filterMap
        (Note.accepted? .enqueue) = [.item 7] := by
  have hmax : 2 ≤ Semaphore.maxPermits := by decide
  exact ⟨⟨Nat.two_pos, hmax⟩, hooks_see_history _ _ _ Nat.two_pos hmax rejections,
    by decide +kernel, by decide +kernel⟩

end World

end BoundedQueue
