import BoundedQueue.Proofs.Session.Promises

/-!
# Nobody waits at the end of input

When no task can move any more, every call in progress is that of a task that is blocked
(`Quiescent.blocked`).  A call that is blocked holds nothing, so that the permits are just the
slots:  `Quiescent.permits`.

* `BlockedIn` says that a task is in an operation, or about to begin it, and finds no permit that it
  could take.
* `Escorted` says that there is a producer while an item is being handed in.  Without it, an item
  could come in behind the last marker.
* `told_after` is the invariant: once the last producer has left, its signal is on the way to the
  consumers, in the ring or with a call that is to put it there.
* `Quiescent.drained` says where the signal has stopped when no task can move: in the ring, or with
  a deregistration that waits for a slot.  A consumer that puts it back cannot be the one to wait,
  since it leaves the marker out where no slot is free.

`drained_of_quiescent` puts it together: no consumer waits for an item, and the ring ends in a
marker, or is so full that a deregistration waits with one.
-/

set_option autoImplicit false

namespace BoundedQueue

variable {α : Type}

namespace World

/-- Task `t` is in an operation, or about to begin it, and finds no permit that it could take. -/
def BlockedIn (w : Traffic α) (t : Int) (op : Operation α) (on : Side) : Prop :=
  ∃ e, w.engagement? t = some e ∧ e.op = op ∧ (w.advance Session.machine t).2 = .blocked on

/-- While an item is being handed in, there is a producer. -/
def Escorted (w : Traffic α) : Prop :=
  ∀ p ∈ w.phases, p.delivers = true → w.shared.queue.producers ≠ 0

instance (w : Traffic α) : Decidable w.Escorted :=
  inferInstanceAs (Decidable (∀ p ∈ w.phases, p.delivers = true → w.shared.queue.producers ≠ 0))

/-! ## When no task can move -/

variable {w : Traffic α} {t : Int} {e : Engagement α}

/-- A task that finds itself blocked asks for a permit of which there is none. -/
theorem Regular.empty_of_blocked (hw : w.Regular) {on : Side} (he : w.engagement? t = some e)
    (hb : (w.advance Session.machine t).2 = .blocked on) :
    on = .free ∧ (∃ errand, e.spot.asksFree = some errand) ∧ w.shared.queue.free.permits = 0 ∨
      on = .filled ∧ e.spot.asksFilled = true ∧ w.shared.queue.filled.permits = 0 := by
  obtain ⟨r, q', move, hp, hsec⟩ := exists_passage hw.sorted hw.within he
  rcases q'.remarked_cases move r with ⟨log, hr⟩ | ⟨log, b, p, hne, hr⟩
  · rw [(stride_advance he (hsec.trans hr)).2] at hb
    cases move with
    | wait => cases hb; exact hp.empty_of_wait
    | go | signal | finish => cases hb
  · rw [(stride_advance he (hsec.trans hr)).2] at hb
    cases hb

/-- A task that is engaged is never idle. -/
theorem turn_ne_idle (he : w.engagement? t = some e) :
    (w.advance Session.machine t).2 ≠ .idle := by
  rcases hs : w.shared.queue.sectionAt e.spot with ⟨q', move⟩
  rw [(stride_advance he hs).2]
  cases move <;> nofun

/-- A call in progress is that of an engaged task. -/
theorem exists_engagement (hw : w.tasks.Sorted) {p : Phase α} (hp : p ∈ w.phases) :
    ∃ t e, w.engagement? t = some e ∧ e.spot = .phase p := by
  obtain ⟨t, ht⟩ := Roster.exists_mem_of_mem_total hw hp
  rcases hx : w.tasks.get t with ⟨standing, todo⟩
  rw [hx] at ht
  cases standing with
  | inside op job =>
    obtain rfl := Multiset.mem_singleton.1 ht
    exact ⟨t, ⟨op, job.purpose, .phase job.phase, todo⟩, by rw [engagement?, hx], rfl⟩
  | idle | paused => cases ht

/-- When no task can move, every call in progress is that of a task that is blocked in it. -/
theorem Quiescent.blocked (h : w.Quiescent Session.machine) (hw : w.Regular) {p : Phase α}
    (hp : p ∈ w.phases) :
    ∃ t op c on, w.BlockedIn t op on ∧ op.call? = some c ∧ c.Visits p ∧
      (on = .free ∧ (∃ errand, (Spot.phase p).asksFree = some errand) ∧
          w.shared.queue.free.permits = 0 ∨
        on = .filled ∧ (Spot.phase p).asksFilled = true ∧ w.shared.queue.filled.permits = 0) := by
  obtain ⟨t, e, he, hspot⟩ := exists_engagement hw.sorted hp
  obtain ⟨⟨c, hc, hreach⟩, -⟩ := hw.jobs.reaches he
  rcases h t with hidle | ⟨on, hon⟩
  · exact absurd hidle (turn_ne_idle he)
  · have hempty := hw.empty_of_blocked he hon
    rw [hspot] at hreach hempty
    exact ⟨t, e.op, c, on, ⟨e, he, rfl, hon⟩, hc, hreach, hempty⟩

theorem Quiescent.burden (h : w.Quiescent Session.machine) (hw : w.Regular) {p : Phase α}
    (hp : p ∈ w.phases) : p.burden = .nothing := by
  obtain ⟨-, -, -, -, -, -, -, ⟨-, ⟨errand, hs⟩, -⟩ | ⟨-, hs, -⟩⟩ := h.blocked hw hp
  · exact burden_of_asksFree hs
  · exact burden_of_asksFilled hs

/-- A task in an operation that takes items never waits for a free slot. -/
theorem Regular.side_of_dequeue (hw : w.Regular) {op : Operation α} {on : Side}
    (hb : w.BlockedIn t op on) (hop : op.call? = some .dequeue) :
    on = .filled ∧ w.shared.queue.filled.permits = 0 := by
  obtain ⟨e, he, rfl, hon⟩ := hb
  rcases hw.empty_of_blocked he hon with ⟨-, ⟨errand, hs⟩, -⟩ | ⟨rfl, -, h0⟩
  · obtain ⟨⟨c, hc, hreach⟩, -⟩ := hw.jobs.reaches he
    cases hc.symm.trans hop
    exact absurd (hreach.visits hs (p := .askFree errand) rfl) (by rintro (h | ⟨-, h⟩) <;> cases h)
  · exact ⟨rfl, h0⟩

/-- When no task can move, the permits are just the slots. -/
theorem Quiescent.permits (h : w.Quiescent Session.machine) (hw : w.Regular)
    (hexact : w.shared.queue.Exact w.phases) :
    w.shared.queue.free.permits + w.shared.queue.len = w.shared.queue.capacity ∧
      w.shared.queue.filled.permits = w.shared.queue.len :=
  hexact.permits fun _ hp => h.burden hw hp

/-- When no task can move and the last producer has left, the signal has stopped in the ring, or
with a deregistration that waits for a slot.  Either way the ring is not empty, so that nobody waits
for an item. -/
theorem Quiescent.drained (h : w.Quiescent Session.machine) (hw : w.Regular)
    (hexact : w.shared.queue.Exact w.phases) (htold : w.shared.queue.Told w.phases)
    (hpos : 0 < w.shared.queue.capacity) (h0 : w.shared.queue.producers = 0)
    (hdep : 0 < w.shared.queue.departures) :
    (∀ t op on, w.BlockedIn t op on → op.call? ≠ some .dequeue) ∧
      ((∃ t op, w.BlockedIn t op .free ∧ op.call? = some .deregister ∧
          w.shared.queue.len = w.shared.queue.capacity) ∨
        w.shared.queue.ring.contents.getLast? = some .eof) := by
  obtain ⟨hfree, hfilled⟩ := h.permits hw hexact
  have hnone (hlen : w.shared.queue.len ≠ 0) (t : Int) (op : Operation α) (on : Side)
      (hb : w.BlockedIn t op on) : op.call? ≠ some .dequeue := fun hop =>
    hlen (hfilled.symm.trans (hw.side_of_dequeue hb hop).2)
  rcases htold h0 hdep with ⟨p, hp, hb⟩ | hlast | ⟨hp, -⟩
  · obtain ⟨t, op, c, on, hblocked, hc, hvisits, ⟨rfl, ⟨errand, hs⟩, hzero⟩ | ⟨-, hs, -⟩⟩ :=
      h.blocked hw hp
    · have hlen : w.shared.queue.len = w.shared.queue.capacity := by omega
      obtain rfl := hvisits.eq_deregister hs hb
      exact ⟨hnone (by omega), .inl ⟨t, op, hblocked, hc, hlen⟩⟩
    · rcases Spot.of_asksFilled hs (Multiset.mem_singleton_self p) with rfl | rfl <;> cases hb
  · refine ⟨hnone fun hlen => ?_, .inr hlast⟩
    rw [(hw.within.ringSound.contents_eq_nil_iff).2 hlen] at hlast
    cases hlast
  · obtain ⟨-, -, -, -, -, -, -, ⟨-, ⟨errand, hs⟩, -⟩ | ⟨-, hs, -⟩⟩ := h.blocked hw hp
    · cases hs
    · cases hs

section Fresh

variable {capacity : Nat} {onEnqueue onDequeue : Option (Hook α)} {log : Logbook}
  {hs : List (Happening (Operation α))}

/-- The end of input is not forgotten in a run without panics in which no hook stops a marker. -/
theorem told_after (hpos : 0 < capacity) (hmax : capacity ≤ Semaphore.maxPermits)
    (hcalm : ((Traffic.fresh capacity onEnqueue onDequeue log).after Session.machine hs).Calm)
    (heof : ∀ cause, .consulted .enqueue .eof (.reject cause) ∉
      ((Traffic.fresh capacity onEnqueue onDequeue log).after Session.machine
        hs).shared.queue.history)
    (hescort : (Traffic.fresh capacity onEnqueue onDequeue log).Always Session.machine Escorted
      hs) :
    let w := (Traffic.fresh capacity onEnqueue onDequeue log).after Session.machine hs
    w.shared.queue.Told w.phases := by
  have heofs : (Traffic.fresh capacity onEnqueue onDequeue log).Always Session.machine
      (fun w => ∀ cause, .consulted .enqueue .eof (.reject cause) ∉ w.shared.queue.history) hs := by
    refine always_of_last (fun x hs h cause hm => h cause ?_) heof
    obtain ⟨notes, hn⟩ :=
      (course_after onEnqueue onDequeue log hpos hmax x hs).history_eq
    rw [hn]
    exact List.mem_append_right _ hm
  have h := calm_induction (I := fun q phases => q.Exact phases ∧ q.Told phases)
    (A := fun q phases => (∀ p ∈ phases, p.delivers = true → q.producers ≠ 0) ∧
      ∀ cause, .consulted .enqueue .eof (.reject cause) ∉ q.history)
    hpos hmax ⟨Queue.exact_fresh _ _ _ _, fun _ h => absurd h (Nat.lt_irrefl 0)⟩
    ?_ ?_ (fun _ _ _ => id) ?_ ?_ hcalm (hescort.and heofs)
  · exact h.2
  · rintro q log phases ⟨⟨hb, hp, hfree, hfilled⟩, htold⟩
    exact ⟨⟨hb, hp, hfree, hfilled⟩, htold⟩
  · rintro q phases ⟨hexact, htold⟩
    exact ⟨hexact.askFilled, fun h0 hdep => (htold h0 hdep).add⟩
  · rintro q phases ⟨hdel, heof⟩
    exact ⟨fun p hp => hdel p (Multiset.mem_add.2 (.inr hp)), heof⟩
  · rintro q spot r q' move others hwithin ⟨hexact, htold⟩ hp ⟨hdel, heof⟩ halone hmove
    refine ⟨hexact.passage hwithin.ringSound hp halone hmove,
      hp.told hwithin.ringSound hexact hmove heof (fun p hphase => hdel p ?_) htold⟩
    exact Multiset.mem_add.2 (.inl (hphase ▸ Multiset.mem_singleton_self p))

/-- There are never more markers than producers that left, whatever fails or panics. -/
theorem markers_after (hpos : 0 < capacity) (hmax : capacity ≤ Semaphore.maxPermits)
    (hs : List (Happening (Operation α))) :
    let w := (Traffic.fresh capacity onEnqueue onDequeue log).after Session.machine hs
    w.shared.queue.markers w.phases ≤ w.shared.queue.departures := by
  intro w
  have hle := allMarkers_le_after onEnqueue onDequeue log hpos hmax Note.isEmptied
    (fun n hn => by cases n <;> first | rfl | cases hn) hs
  exact Nat.le_trans (Nat.add_le_add_left (owed_le_promised w.phases) _) hle

/-- **At the end of input nobody waits for an item.**  When no task can move, no producer is left
and at least one has left, no consumer waits, and the signal is there for whoever comes next: the
ring ends in a marker, or is full and a deregistration waits with its marker. -/
theorem drained_of_quiescent (hpos : 0 < capacity) (hmax : capacity ≤ Semaphore.maxPermits)
    (hcalm : ((Traffic.fresh capacity onEnqueue onDequeue log).after Session.machine hs).Calm)
    (heof : ∀ cause, .consulted .enqueue .eof (.reject cause) ∉
      ((Traffic.fresh capacity onEnqueue onDequeue log).after Session.machine
        hs).shared.queue.history)
    (hescort : (Traffic.fresh capacity onEnqueue onDequeue log).Always Session.machine Escorted
      hs) :
    let w := (Traffic.fresh capacity onEnqueue onDequeue log).after Session.machine hs
    let q := w.shared.queue
    w.Quiescent Session.machine → q.producers = 0 → .lowered ∈ recent q.history →
      (∀ t op on, w.BlockedIn t op on → op.call? ≠ some .dequeue) ∧
        ((∃ t op, w.BlockedIn t op .free ∧ op.call? = some .deregister ∧ q.len = capacity) ∨
          q.ring.contents.getLast? = some .eof) := by
  intro w q hquiet h0 hlow
  have hw : w.Regular := regular_after onEnqueue onDequeue log hpos hmax hs
  obtain ⟨hexact, hcap⟩ := exact_after hpos hmax hcalm
  have hcap : q.capacity = capacity := hcap
  have htold := told_after hpos hmax hcalm heof hescort
  have hdep : 0 < q.departures := List.countP_pos_iff.2 ⟨_, hlow, rfl⟩
  have hdrained := hquiet.drained hw hexact htold (hcap.symm ▸ hpos) h0 hdep
  rw [← hcap]
  exact hdrained

end Fresh

/-- Three producers leave a queue with a single slot.  A consumer pops the marker of the first one
and leaves it out, because the second one takes the slot before it can put the marker back; the
third one finds no slot. -/
def crowding : List (Happening (Operation Nat)) :=
  [.advance 2, .advance 2, .advance 2, .advance 3, .advance 2, .advance 3, .advance 3, .advance 3,
    .advance 1, .advance 1, .advance 1, .advance 1, .advance 4, .advance 2, .advance 1, .advance 1,
    .advance 1, .advance 1, .handOut ⟨4, [.perform .deregister]⟩,
    .handOut ⟨3, [.perform .dequeue]⟩, .handOut ⟨2, [.perform .deregister]⟩, .handOut ⟨1,
      [.perform .register, .perform .register, .perform .register, .perform .deregister]⟩]

theorem drained_of_quiescent_crowding :
    let w := (Traffic.fresh 1 none none (.blank none)).after Session.machine crowding
    (w.Calm ∧ w.Quiescent Session.machine ∧ w.shared.queue.producers = 0 ∧
      .lowered ∈ recent w.shared.queue.history) ∧
    (.leftOut ∈ w.shared.queue.history ∧ ⟨3, .completed .dequeue .drained⟩ ∈ w.events) ∧
    (∀ t op on, w.BlockedIn t op on → op.call? ≠ some .dequeue) ∧
    ((∃ t op, w.BlockedIn t op .free ∧ op.call? = some .deregister ∧ w.shared.queue.len = 1) ∨
      w.shared.queue.ring.contents.getLast? = some .eof) := by
  have hhistory : ((Traffic.fresh 1 none none (.blank none)).after Session.machine
      crowding).shared.queue.history = [.pushed .eof, .leftOut, .concluded, .popped .eof,
        .pushed .eof, .lowered, .lowered, .lowered, .raised, .raised, .raised] := rfl
  have hevents : ((Traffic.fresh 1 none none (.blank none)).after Session.machine
      crowding).events = [⟨2, .completed .deregister .done⟩, ⟨3, .completed .dequeue .drained⟩,
        ⟨1, .completed .deregister .done⟩, ⟨1, .completed .register .done⟩,
        ⟨1, .completed .register .done⟩, ⟨1, .completed .register .done⟩] := rfl
  intro w
  have hcalm : w.Calm := calm_of_all (by decide +kernel) (by decide +kernel)
  have hquiet : w.Quiescent Session.machine := by
    have hall : ∀ e ∈ w.tasks, (w.advance Session.machine e.1).2 = .idle ∨
        (w.advance Session.machine e.1).2 = .blocked .free := by decide +kernel
    exact quiescent_of_roster fun e he => (hall e he).imp_right fun h => ⟨.free, h⟩
  obtain ⟨hnone, hsignal⟩ := drained_of_quiescent (by decide) (by decide) hcalm
    (fun cause h => by rw [hhistory] at h; simp at h) (by decide +kernel) hquiet (by decide)
    (by decide)
  exact ⟨⟨hcalm, hquiet, by decide, by decide⟩, ⟨by rw [hhistory]; simp, by rw [hevents]; simp⟩,
    hnone, hsignal⟩

end World

end BoundedQueue
