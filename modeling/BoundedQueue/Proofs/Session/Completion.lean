import BoundedQueue.Proofs.Session.Drain
import BoundedQueue.Proofs.Session.Pipeline
import BoundedQueue.Proofs.Session.Totals

/-!
# Pipelines run to completion

When no task of a pipeline can move any more, the world is `Still`.  Then all producers have left:
one that has not would be waiting for a slot, so that the ring would be full, and a consumer that
has not finished would find an item, while one that has finished has come upon the end of input
(`Still.producers_eq_zero`).  So the signal has reached all consumers (`Still.consumers_free`), and
what is left in the ring are markers.

* The answers of the tasks say what was handed in and out.  Producers have put all their items
  (`offered_finished`), and a consumer has been answered once more, with all that it got
  (`answersTo_consumer`).
* `Pipeline.Delivers` says that the items of the producers have reached the consumers: the exchanges
  of the run, sorted by tasks, make up the lists of the producers on one side and those of the
  consumers on the other.
* `Still.free_of_card_le` says that nobody is blocked if there is a slot for every marker.  If not,
  a deregistration may wait for ever, with nobody left to take anything.

`Pipeline.completes` says that the consumers have got just the items that the producers put, those
of each producer in the order in which it put them, and that no call ended with an error.
-/

set_option autoImplicit false

namespace BoundedQueue

variable {α : Type}

namespace Pipeline

variable {l : Pipeline α} {w₁ w : Traffic α} {t : Int} {op : Operation α} {on : Side}

/-- A world in which no task of a pipeline can move, after everything was handed out. -/
structure Still (l : Pipeline α) (w₁ w : Traffic α) : Prop where
  underway : l.Underway w
  follows : l.Follows w₁ w
  assigned : ∀ t, w.assigned t = w₁.finished t ++ l.plan t
  quiescent : w.Quiescent Session.machine
  regular : w.Regular
  capacity_pos : 0 < w.shared.queue.capacity
  markers_le : w.shared.queue.markers w.phases ≤ w.shared.queue.departures
  answers : ∃ new, w.answers = new ++ w₁.answers

namespace Still

/-- A task has nothing to do or is blocked. -/
theorem free_or_blocked (h : l.Still w₁ w) (t : Int) :
    w.tasks.get t = .free ∨ ∃ op on, w.BlockedIn t op on := by
  have hturn := h.quiescent t
  rcases he : w.engagement? t with - | e
  · exact .inl (World.free_of_no_engagement he hturn)
  · rcases hturn with hturn | ⟨on, hturn⟩
    · exact absurd hturn (World.turn_ne_idle he)
    · exact .inr ⟨e.op, on, e, he, rfl, hturn⟩

/-- A task that has nothing to do has finished all that it was told. -/
theorem finished_of_free (h : l.Still w₁ w) (ht : w.tasks.get t = .free) :
    w.finished t = w₁.finished t ++ l.plan t := by
  rw [← h.assigned t, World.assigned, World.begun, ht]
  exact ((List.append_nil _).trans (List.append_nil _)).symm

/-- A task that is blocked has got so far in its plan. -/
theorem exists_of_blocked (h : l.Still w₁ w) (hb : w.BlockedIn t op on) :
    ∃ ops, w.finished t = w₁.finished t ++ ops ∧ ops ++ [op] <+: l.plan t := by
  obtain ⟨e, he, rfl, -⟩ := hb
  obtain ⟨ops, hops⟩ := h.follows.finished t
  refine ⟨ops, hops.symm, e.todo.filterMap Instruction.op?, ?_⟩
  have hassigned := h.assigned t
  rw [World.assigned_of_engagement he, ← hops, List.append_assoc] at hassigned
  rw [List.append_assoc]
  exact List.append_cancel_left hassigned

/-- Nobody waits for an item while the ring is full, nor for a slot while it is not. -/
theorem len_of_blocked (h : l.Still w₁ w) (hb : w.BlockedIn t op on) :
    on = .free ∧ w.shared.queue.len = w.shared.queue.capacity ∧ op.call? ≠ some .dequeue ∨
      on = .filled ∧ w.shared.queue.len = 0 ∧ op.call? = some .dequeue := by
  obtain ⟨hfree, hfilled⟩ :=
    h.quiescent.permits h.regular h.underway.smooth.exact
  have hside := h.regular.side_of_dequeue hb
  obtain ⟨e, he, rfl, hon⟩ := hb
  rcases h.regular.empty_of_blocked he hon with ⟨rfl, -, h0⟩ | ⟨rfl, hs, h0⟩
  · refine .inl ⟨rfl, by omega, fun hop => ?_⟩
    cases (hside hop).1
  · obtain ⟨⟨c, hc, hreach⟩, -⟩ := h.regular.jobs.reaches he
    exact .inr ⟨rfl, hfilled.symm.trans h0, hc.trans (congrArg _ (hreach.dequeue hs))⟩

/-- A consumer that has finished has come upon the end of input. -/
theorem concluded_of_free (h : l.Still w₁ w) (hc : t ∈ l.consumers)
    (ht : w.tasks.get t = .free) : .concluded ∈ w.shared.queue.history := by
  have hcollect : Operation.collect ∈ w.finished t := by
    rw [h.finished_of_free ht, plan_of_consumer hc]
    exact List.mem_append_right _ List.mem_cons_self
  rw [World.finished_eq_answersTo, List.mem_reverse, List.mem_map] at hcollect
  obtain ⟨⟨op, a⟩, hx, rfl⟩ := hcollect
  exact h.underway.concluded t _ a (World.mem_answersTo.1 hx) rfl

/-- A consumer that is blocked waits for an item, and a producer does not. -/
theorem call?_of_blocked (h : l.Still w₁ w) (hb : w.BlockedIn t op on) :
    (t ∈ l.consumers → op.call? = some .dequeue) ∧
      (t ∈ l.producers → op.call? ≠ some .dequeue) := by
  obtain ⟨ops, -, hplan⟩ := h.exists_of_blocked hb
  have hop : op ∈ l.plan t := hplan.subset (List.mem_append_right _ List.mem_cons_self)
  refine ⟨fun hc => ?_, fun hp => ?_⟩
  · rw [plan_of_consumer hc, List.mem_singleton] at hop
    rw [hop]; rfl
  · rw [plan_of_producer hp, List.mem_append, List.mem_singleton, List.mem_map] at hop
    rcases hop with ⟨a, -, rfl⟩ | rfl <;> exact nofun

/-- **All producers have left.** -/
theorem producers_eq_zero (h : l.Still w₁ w) (hconsumers : l.consumers.Nonempty) :
    w.shared.queue.producers = 0 := by
  by_contra h0
  have hlt : l.leavers w < ∑ t ∈ l.producers, 1 := by
    have hadd := h.underway.producers_add
    rw [← Finset.card_eq_sum_ones]
    omega
  obtain ⟨t, ht, hcount⟩ := Finset.exists_lt_of_sum_lt hlt
  -- a producer that has not left is blocked, so that the ring is full
  have hfull : w.shared.queue.len = w.shared.queue.capacity := by
    rcases h.free_or_blocked t with hfree | ⟨op, on, hb⟩
    · rw [World.begun, h.finished_of_free hfree, plan_of_producer ht] at hcount
      simp only [List.countP_append, List.countP_singleton, Operation.isDeregister, if_true]
        at hcount
      omega
    · rcases h.len_of_blocked hb with ⟨-, hlen, -⟩ | ⟨-, -, hop⟩
      · exact hlen
      · exact absurd hop ((h.call?_of_blocked hb).2 ht)
  obtain ⟨u, hu⟩ := hconsumers
  rcases h.free_or_blocked u with hfree | ⟨op, on, hb⟩
  · exact h0 (h.underway.smooth.closed.final (h.concluded_of_free hu hfree)).1
  · rcases h.len_of_blocked hb with ⟨-, -, hop⟩ | ⟨-, hlen, -⟩
    · exact hop ((h.call?_of_blocked hb).1 hu)
    · have hpos := h.capacity_pos
      omega

/-- **All consumers have finished**, and what is blocked is a deregistration. -/
theorem consumers_free (h : l.Still w₁ w) (hproducers : l.producers.Nonempty)
    (hconsumers : l.consumers.Nonempty) :
    (∀ u ∈ l.consumers, w.tasks.get u = .free) ∧
      ∀ t op on, w.BlockedIn t op on → op = .deregister ∧ on = .free := by
  have h0 := h.producers_eq_zero hconsumers
  have hdep : 0 < w.shared.queue.departures := by
    have hadd := h.underway.departures_add
    have hcard := hproducers.card_pos
    omega
  obtain ⟨hdrained, -⟩ := h.quiescent.drained h.regular h.underway.smooth.exact
    h.underway.smooth.told h.capacity_pos h0 hdep
  refine ⟨fun u hu => ?_, fun t op on hb => ?_⟩
  · rcases h.free_or_blocked u with hfree | ⟨op, on, hb⟩
    · exact hfree
    · exact absurd ((h.call?_of_blocked hb).1 hu) (hdrained u op on hb)
  · have hne := hdrained t op on hb
    obtain ⟨ops, hfinished, hplan⟩ := h.exists_of_blocked hb
    obtain ⟨hpiped, hcount, hmem⟩ := of_plan hplan
    have hon : on = .free := by
      rcases h.len_of_blocked hb with ⟨hon, -⟩ | ⟨-, -, hop⟩
      · exact hon
      · exact absurd hop hne
    refine ⟨?_, hon⟩
    cases op with
    | deregister => rfl
    | collect => exact absurd rfl hne
    | enqueue a =>
      obtain ⟨e, he, hop, -⟩ := hb
      have hcurrent : e.current.countP Operation.isDeregister = 0 := by
        rw [Engagement.current, hop]
        split <;> rfl
      have hbegun : (w.begun t).countP Operation.isDeregister = 0 := by
        rw [World.begun_of_engagement he, hfinished, List.countP_append, List.countP_append,
          h.follows.countP_registered, hcount, hcurrent]
      have hlt := h.follows.leavers_lt (hmem (.inr ⟨a, rfl⟩)) hbegun
      have hadd := h.underway.producers_add
      omega
    | _ => cases hpiped

/-- A producer that waits for a slot still has its marker. -/
theorem owed_pos (h : l.Still w₁ w) (hb : w.BlockedIn t .deregister .free) :
    0 < owed w.phases := by
  obtain ⟨e, he, hop, hon⟩ := hb
  obtain ⟨⟨c, hc, hreach⟩, -⟩ := h.regular.jobs.reaches he
  rw [hop] at hc
  cases hc
  rcases h.regular.empty_of_blocked he hon with ⟨-, ⟨errand, hs⟩, -⟩ | ⟨hfilled, -⟩
  · rw [World.phases_of_engagement h.regular.sorted he, owed_add]
    refine Nat.lt_of_lt_of_le ?_ (Nat.le_add_right _ _)
    rcases hspot : e.spot with c | p
    · rw [hspot] at hs hreach
      cases hreach
      cases hs
    · rw [hspot] at hs hreach
      obtain rfl : Errand.farewell = errand :=
        Option.some_inj.1 (hreach.symm.trans (errand?_of_asksFree hs))
      rw [Spot.phases, owed_singleton]
      rcases Spot.of_asksFree hs (Multiset.mem_singleton_self p) with rfl | rfl <;>
        exact Nat.one_pos
  · cases hfilled

/-- **If there is a slot for every marker, nobody is blocked.** -/
theorem free_of_card_le (h : l.Still w₁ w) (hproducers : l.producers.Nonempty)
    (hconsumers : l.consumers.Nonempty) (hle : l.producers.card ≤ w.shared.queue.capacity)
    (t : Int) : w.tasks.get t = .free := by
  obtain ⟨hfree, hblocked⟩ := h.consumers_free hproducers hconsumers
  rcases h.free_or_blocked t with ht | ⟨op, on, hb⟩
  · exact ht
  · obtain ⟨rfl, rfl⟩ := hblocked t op on hb
    obtain ⟨u, hu⟩ := hconsumers
    obtain ⟨h0, heof⟩ := h.underway.smooth.closed.final (h.concluded_of_free hu (hfree u hu))
    have hlen : w.shared.queue.len = w.shared.queue.capacity := by
      rcases h.len_of_blocked hb with ⟨-, hlen, -⟩ | ⟨hon, -⟩
      · exact hlen
      · cases hon
    -- the ring is full of markers, and one more is on its way
    have hmarkers : w.shared.queue.ring.contents.countP Entry.isMarker = w.shared.queue.len :=
      (List.countP_eq_length.2 fun entry he => by rw [heof entry he]; rfl).trans
        h.regular.within.ringSound.length_contents
    have howed := h.owed_pos hb
    have hmost := h.markers_le
    have hadd := h.underway.departures_add
    rw [Queue.markers, hmarkers] at hmost
    omega

end Still

end Pipeline

/-! ## What was handed in and out -/

namespace Operation.Succeeds

variable {op : Operation α} {a : Answer α}

/-- An operation that succeeds has put what it was to put. -/
theorem deposits (h : op.Succeeds a) : a.deposits op.offered = op.offered := by
  cases op with
  | collect => exact Session.deposits_nil a
  | _ => cases h; rfl

/-- Only an iteration hands out items. -/
theorem items (h : op.Succeeds a) (hop : op ≠ .collect) : a.items = [] := by
  cases op with
  | collect => exact absurd rfl hop
  | _ => cases h; rfl

theorem calm (h : op.Succeeds a) (text : String) : a ≠ .panicked text := by
  rintro rfl
  cases op with
  | collect => obtain ⟨items, h⟩ := h; cases h
  | _ => cases h

end Operation.Succeeds

/-- The chronicle of a run, in which the ring was never emptied, that leads to world `w`. -/
structure World.Chronicled (w : Traffic α) (c : List (Int × Mark α)) : Prop where
  balanced : ∀ t, Balanced (marksOf t c)
  pending : ∀ t, (w.tasks.get t).Pending (marksOf t c)
  answers : ∀ t, (marksOf t c).filterMap Mark.completed? = w.answersTo t
  recent : recentMarks c = c

namespace Pipeline.Still

variable {l : Pipeline α} {w₁ w : Traffic α} {t : Int} {c : List (Int × Mark α)}

theorem succeeds (h : l.Still w₁ w) {x : Operation α × Answer α} (hx : x ∈ w.answersTo t) :
    x.1.Succeeds x.2 :=
  h.underway.succeeded t x.1 x.2 (World.mem_answersTo.1 hx)

/-- The operations in which tasks are blocked have neither pushed nor popped anything. -/
theorem nothing_pending (h : l.Still w₁ w) (hproducers : l.producers.Nonempty)
    (hconsumers : l.consumers.Nonempty) {ms : List (Mark α)} (hp : (w.tasks.get t).Pending ms) :
    pushedItems (openPart Mark.endsOperation ms) = [] ∧
      poppedItems (openPart Mark.endsOperation ms) = [] := by
  rcases h.free_or_blocked t with ht | ⟨op, on, hb⟩
  · rw [ht] at hp
    exact ⟨hp.pushedByOperation, hp.poppedByOperation⟩
  · obtain ⟨rfl, rfl⟩ := (h.consumers_free hproducers hconsumers).2 t op on hb
    obtain ⟨e, he, hop, hon⟩ := hb
    have hpending := World.pending_of_engagement he hp
    have hgot : e.purpose.got = [] := by
      have hserves := (h.regular.jobs.reaches he).2
      rw [hop] at hserves
      generalize e.purpose = purpose at hserves
      cases hserves
      rfl
    rcases h.regular.empty_of_blocked he hon with ⟨-, ⟨errand, hs⟩, -⟩ | ⟨hon, -⟩
    · obtain ⟨hdeposited, hhand⟩ := Queue.deposited_of_asksFree hs
      rw [hdeposited, hhand, hgot] at hpending
      exact ⟨hpending.pushedByOperation, hpending.poppedByOperation⟩
    · cases hon

/-- A task has handed in what it finished to put. -/
theorem itemsOf_handedIn (h : l.Still w₁ w) (hproducers : l.producers.Nonempty)
    (hconsumers : l.consumers.Nonempty) (hc : w.Chronicled c) (t : Int) :
    itemsOf t (handedIn c) = (w.finished t).flatMap Operation.offered := by
  have hpushed := (hc.balanced t).pushed_eq
  rw [(h.nothing_pending hproducers hconsumers (hc.pending t)).1, hc.answers t,
    List.nil_append] at hpushed
  have hoffered : (w.answersTo t).flatMap (fun x => x.2.deposits x.1.offered) =
      ((w.answersTo t).map Prod.fst).flatMap Operation.offered := by
    rw [List.flatMap_map]
    exact List.flatMap_congr fun x hx => (h.succeeds hx).deposits
  rw [BoundedQueue.itemsOf_handedIn, hc.recent, hpushed, hoffered, World.finished_eq_answersTo,
    List.reverse_flatMap]
  exact List.flatMap_congr fun op _ => op.reverse_offered

/-- A task was handed out what its answers say. -/
theorem itemsOf_handedOut (h : l.Still w₁ w) (hproducers : l.producers.Nonempty)
    (hconsumers : l.consumers.Nonempty) (hc : w.Chronicled c) (t : Int) :
    itemsOf t (handedOut c) = (w.answersTo t).reverse.flatMap fun x => x.2.items := by
  have hpopped := (hc.balanced t).popped_eq fun x hx =>
    (h.succeeds (hc.answers t ▸ hx)).calm
  rw [(h.nothing_pending hproducers hconsumers (hc.pending t)).2, hc.answers t,
    List.nil_append] at hpopped
  rw [BoundedQueue.itemsOf_handedOut, hc.recent, hpopped, List.reverse_flatMap]
  exact List.flatMap_congr fun x _ => List.reverse_reverse _

/-- What a task has finished is a registration or on its plan. -/
theorem mem_finished (h : l.Still w₁ w) {op : Operation α} (hop : op ∈ w.finished t) :
    op = .register ∨ op ∈ l.plan t := by
  have hbegun : op ∈ w.begun t := List.mem_append_left _ hop
  rcases List.mem_append.1 ((h.follows.begun t).subset hbegun) with hop | hop
  · exact .inl (h.follows.registered t op hop)
  · exact .inr hop

/-- Producers have put all their items. -/
theorem offered_finished (h : l.Still w₁ w) (hproducers : l.producers.Nonempty)
    (hconsumers : l.consumers.Nonempty) (ht : t ∈ l.producers) :
    (w.finished t).flatMap Operation.offered = l.items t := by
  have hregistered : (w₁.finished t).flatMap Operation.offered = [] :=
    List.flatMap_eq_nil_iff.2 fun op hop => by rw [h.follows.registered t op hop]; rfl
  have hitems : ((l.items t).map .enqueue).flatMap Operation.offered = l.items t := by
    rw [List.flatMap_map]
    exact List.flatMap_singleton' _
  rcases h.free_or_blocked t with hfree | ⟨op, on, hb⟩
  · rw [h.finished_of_free hfree, plan_of_producer ht, List.flatMap_append, List.flatMap_append,
      hregistered, hitems]
    exact List.append_nil _
  · obtain ⟨rfl, rfl⟩ := (h.consumers_free hproducers hconsumers).2 t op on hb
    obtain ⟨ops, hfinished, hplan⟩ := h.exists_of_blocked hb
    rw [plan_of_producer ht] at hplan
    rcases List.prefix_concat_iff.1 hplan with hplan | hplan
    · obtain rfl := List.append_inj_left' hplan rfl
      rw [hfinished, List.flatMap_append, hregistered, hitems, List.nil_append]
    · obtain ⟨a, -, ha⟩ :=
        List.mem_map.1 (hplan.subset (List.mem_append_right _ List.mem_cons_self))
      cases ha

/-- Nobody else puts anything. -/
theorem offered_finished_other (h : l.Still w₁ w) (ht : t ∉ l.producers) :
    (w.finished t).flatMap Operation.offered = [] := by
  refine List.flatMap_eq_nil_iff.2 fun op hop => ?_
  rcases h.mem_finished hop with rfl | hop
  · rfl
  · by_cases hc : t ∈ l.consumers
    · rw [plan_of_consumer hc, List.mem_singleton] at hop
      rw [hop]; rfl
    · rw [plan_of_other ht hc] at hop
      cases hop

/-- A consumer has been answered once more, with all that it got. -/
theorem answersTo_consumer (h : l.Still w₁ w) (hc : t ∈ l.consumers)
    (ht : w.tasks.get t = .free) :
    ∃ items, w.answersTo t = (.collect, .listed items none) :: w₁.answersTo t := by
  obtain ⟨new, hnew⟩ := h.answers
  have hsplit : w.answersTo t =
      new.filterMap (fun x => if x.1 = t then some x.2 else none) ++ w₁.answersTo t := by
    rw [World.answersTo, hnew, List.filterMap_append]
    rfl
  generalize new.filterMap (fun x => if x.1 = t then some x.2 else none) = new at hsplit
  have hfinished := h.finished_of_free ht
  rw [World.finished_eq_answersTo, World.finished_eq_answersTo, hsplit, List.map_append,
    List.reverse_append, plan_of_consumer hc] at hfinished
  have hone : (new.map Prod.fst).reverse = [.collect] := List.append_cancel_left hfinished
  rw [List.reverse_eq_iff, List.reverse_singleton, List.map_eq_singleton_iff] at hone
  obtain ⟨⟨op, a⟩, rfl, hop⟩ := hone
  cases hop
  have hmem : (Operation.collect, a) ∈ w.answersTo t := hsplit ▸ List.mem_cons_self
  obtain ⟨items, rfl⟩ : ∃ items, a = .listed items none := h.succeeds hmem
  exact ⟨items, hsplit⟩

/-- That is all that was handed out to it. -/
theorem items_answersTo_consumer (h : l.Still w₁ w) {items : List α}
    (hanswers : w.answersTo t = (.collect, .listed items none) :: w₁.answersTo t) :
    ((w.answersTo t).reverse.flatMap fun x => x.2.items) = items := by
  have hregistered : ((w₁.answersTo t).reverse.flatMap fun x => x.2.items) = [] := by
    refine List.flatMap_eq_nil_iff.2 fun x hx => ?_
    rw [List.mem_reverse] at hx
    have hop : x.1 = .register := h.follows.registered t _ (by
      rw [World.finished_eq_answersTo, List.mem_reverse]
      exact List.mem_map_of_mem hx)
    have hmem : x ∈ w.answersTo t := hanswers ▸ List.mem_cons_of_mem _ hx
    exact (h.succeeds hmem).items fun hcollect => by cases hop.symm.trans hcollect
  rw [hanswers, List.reverse_cons, List.flatMap_append, hregistered]
  exact List.append_nil _

/-- Nobody else is handed out anything. -/
theorem items_answersTo_other (h : l.Still w₁ w) (hc : t ∉ l.consumers) :
    ((w.answersTo t).reverse.flatMap fun x => x.2.items) = [] := by
  refine List.flatMap_eq_nil_iff.2 fun x hx => ?_
  rw [List.mem_reverse] at hx
  refine (h.succeeds hx).items fun hop => ?_
  have hfinished : Operation.collect ∈ w.finished t := by
    rw [World.finished_eq_answersTo, List.mem_reverse, ← hop]
    exact List.mem_map_of_mem hx
  rcases h.mem_finished hfinished with hop | hop
  · cases hop
  · by_cases hp : t ∈ l.producers
    · rw [plan_of_producer hp] at hop
      simp at hop
    · rw [plan_of_other hp hc] at hop
      cases hop

/-- No item is left in the ring. -/
theorem nothing_left (h : l.Still w₁ w) (hproducers : l.producers.Nonempty)
    (hconsumers : l.consumers.Nonempty) :
    w.shared.queue.ring.contents.filterMap Entry.item? = [] := by
  obtain ⟨u, hu⟩ := hconsumers
  have hfree := (h.consumers_free hproducers ⟨u, hu⟩).1 u hu
  obtain ⟨-, heof⟩ := h.underway.smooth.closed.final (h.concluded_of_free hu hfree)
  exact List.filterMap_eq_nil_iff.2 fun entry he => by rw [heof entry he]; rfl

end Pipeline.Still

/-! ## Deliveries -/

theorem itemsOf_exchanges (who : Exchange α → Int) (t : Int) (exchanges : List (Exchange α)) :
    itemsOf t (exchanges.map fun x => (who x, x.item)) =
      (exchanges.filter fun x => who x = t).map Exchange.item := by
  rw [itemsOf, List.filter_map, List.map_map]
  rfl

/-- If only some tasks have items on a list, the exchanges that it lists are theirs. -/
theorem mem_of_exchanges {exchanges : List (Exchange α)} {who : Exchange α → Int} {s : Finset Int}
    {items : List (Int × α)} (h : exchanges.map (fun x => (who x, x.item)) = items)
    (hnone : ∀ t ∉ s, itemsOf t items = []) {x : Exchange α} (hx : x ∈ exchanges) : who x ∈ s := by
  by_contra hs
  have hempty := hnone _ hs
  rw [← h, itemsOf_exchanges, List.map_eq_nil_iff, List.filter_eq_nil_iff] at hempty
  exact hempty x hx (decide_eq_true rfl)

/-- The items of the producers have reached the consumers, of which `u` got `got u`. -/
structure Pipeline.Delivers (l : Pipeline α) (exchanges : List (Exchange α)) (got : Int → List α) :
    Prop where
  between : ∀ x ∈ exchanges, x.giver ∈ l.producers ∧ x.taker ∈ l.consumers
  /-- All that a producer was to put has been taken, in this order. -/
  given : ∀ p ∈ l.producers, (exchanges.filter fun x => x.giver = p).map Exchange.item = l.items p
  taken : ∀ u ∈ l.consumers, (exchanges.filter fun x => x.taker = u).map Exchange.item = got u
  /-- What a consumer got from a producer is in the order of both. -/
  ordered : ∀ p ∈ l.producers, ∀ u ∈ l.consumers,
    let items := (exchanges.filter fun x => x.giver = p ∧ x.taker = u).map Exchange.item
    items.Sublist (l.items p) ∧ items.Sublist (got u)

/-- What the tasks exchanged, each for itself, makes up all that was exchanged. -/
theorem sum_exchanges {exchanges : List (Exchange α)} {who : Exchange α → Int} {s : Finset Int}
    {items : Int → List α} (h : ∀ x ∈ exchanges, who x ∈ s)
    (hitems : ∀ t ∈ s, (exchanges.filter fun x => who x = t).map Exchange.item = items t) :
    ∑ t ∈ s, (items t : Multiset α) = (exchanges.map Exchange.item : Multiset α) := by
  have hnone (t : Int) (ht : t ∉ s) : itemsOf t (exchanges.map fun x => (who x, x.item)) = [] := by
    rw [itemsOf_exchanges, List.map_eq_nil_iff, List.filter_eq_nil_iff]
    exact fun x hx heq => ht (of_decide_eq_true heq ▸ h x hx)
  have hsum := sum_itemsOf hnone
  rw [List.map_map] at hsum
  refine Eq.trans (Finset.sum_congr rfl fun t ht => ?_) hsum
  rw [itemsOf_exchanges, hitems t ht]

/-- The lists of the consumers make up those of the producers. -/
theorem Pipeline.Delivers.sum_eq {l : Pipeline α} {exchanges : List (Exchange α)}
    {got : Int → List α} (h : l.Delivers exchanges got) :
    ∑ u ∈ l.consumers, (got u : Multiset α) = ∑ p ∈ l.producers, (l.items p : Multiset α) :=
  (sum_exchanges (fun x hx => (h.between x hx).2) h.taken).trans
    (sum_exchanges (fun x hx => (h.between x hx).1) h.given).symm

/-- What was handed in by the producers and out to the consumers makes up the deliveries. -/
theorem Pipeline.delivers {l : Pipeline α} {exchanges : List (Exchange α)} {got : Int → List α}
    {ins outs : List (Int × α)} (hins : exchanges.map (fun x => (x.giver, x.item)) = ins)
    (houts : exchanges.map (fun x => (x.taker, x.item)) = outs)
    (hp : ∀ p ∈ l.producers, itemsOf p ins = l.items p)
    (hp' : ∀ p ∉ l.producers, itemsOf p ins = []) (hu : ∀ u ∈ l.consumers, itemsOf u outs = got u)
    (hu' : ∀ u ∉ l.consumers, itemsOf u outs = []) : l.Delivers exchanges got where
  between _ hx := ⟨mem_of_exchanges hins hp' hx, mem_of_exchanges houts hu' hx⟩
  given p hmem := by rw [← itemsOf_exchanges, hins, hp p hmem]
  taken u hmem := by rw [← itemsOf_exchanges, houts, hu u hmem]
  ordered p hpmem u humem := by
    rw [← hp p hpmem, ← hu u humem]
    exact ⟨sublist_itemsOf (hins ▸ List.prefix_rfl) fun x hx => (of_decide_eq_true hx).1,
      sublist_itemsOf (houts ▸ List.prefix_rfl) fun x hx => (of_decide_eq_true hx).2⟩

/-- **The items of the producers have reached the consumers**, once nobody can move. -/
theorem Pipeline.Still.exists_got {l : Pipeline α} {w₁ w : Traffic α} {c : List (Int × Mark α)}
    (h : l.Still w₁ w) (hproducers : l.producers.Nonempty) (hconsumers : l.consumers.Nonempty)
    (hc : w.Chronicled c) (hflow : (handedIn c).map Prod.snd =
      (handedOut c).map Prod.snd ++ w.shared.queue.ring.contents.filterMap Entry.item?) :
    ∃ got : Int → List α,
      (∀ u ∈ l.consumers, w.tasks.get u = .free ∧
        w.answersTo u = (.collect, .listed (got u) none) :: w₁.answersTo u) ∧
      ∑ u ∈ l.consumers, (got u : Multiset α) = ∑ p ∈ l.producers, (l.items p : Multiset α) ∧
      ∃ exchanges : List (Exchange α),
        exchanges.map (fun x => (x.giver, x.item)) = handedIn c ∧
        exchanges.map (fun x => (x.taker, x.item)) = handedOut c ∧ l.Delivers exchanges got := by
  have hfree := (h.consumers_free hproducers hconsumers).1
  have hlisted (u : Int) : ∃ items, u ∈ l.consumers →
      w.answersTo u = (.collect, .listed items none) :: w₁.answersTo u := by
    by_cases hu : u ∈ l.consumers
    · obtain ⟨items, hitems⟩ := h.answersTo_consumer hu (hfree u hu)
      exact ⟨items, fun _ => hitems⟩
    · exact ⟨[], fun hmem => absurd hmem hu⟩
  choose got hgot using hlisted
  have hins := h.itemsOf_handedIn hproducers hconsumers hc
  have houts := h.itemsOf_handedOut hproducers hconsumers hc
  have hput (p : Int) (hp : p ∈ l.producers) : itemsOf p (handedIn c) = l.items p :=
    (hins p).trans (h.offered_finished hproducers hconsumers hp)
  have hput' (p : Int) (hp : p ∉ l.producers) : itemsOf p (handedIn c) = [] :=
    (hins p).trans (h.offered_finished_other hp)
  have htook (u : Int) (hu : u ∈ l.consumers) : itemsOf u (handedOut c) = got u :=
    (houts u).trans (h.items_answersTo_consumer (hgot u hu))
  have htook' (u : Int) (hu : u ∉ l.consumers) : itemsOf u (handedOut c) = [] :=
    (houts u).trans (h.items_answersTo_other hu)
  obtain ⟨exchanges, houtEq, hinPre⟩ := exists_exchanges hflow
  -- the ring holds no item any more, so that all that came in went out
  rw [h.nothing_left hproducers hconsumers, List.append_nil] at hflow
  have hinEq : exchanges.map (fun x => (x.giver, x.item)) = handedIn c := by
    refine hinPre.eq_of_length ?_
    rw [List.length_map, ← List.length_map Prod.snd, hflow, List.length_map, ← houtEq,
      List.length_map]
  have hdelivers := delivers hinEq houtEq hput hput' htook htook'
  exact ⟨got, fun u hu => ⟨hfree u hu, hgot u hu⟩, hdelivers.sum_eq, exchanges, hinEq, houtEq,
    hdelivers⟩

/-! ## Completion -/

theorem Note.not_isEmptied {n : Note α} (h : n.isPlain = true) : n.isEmptied = false := by
  cases n <;> first | rfl | cases h

section Fresh

variable {capacity : Nat} (log : Logbook)

/-- The chronicle of a run tells what led to the world in which it ends. -/
theorem World.chronicled (hpos : 0 < capacity) (hmax : capacity ≤ Semaphore.maxPermits)
    (hs : List (Happening (Operation α)))
    (hplain : ((Traffic.fresh capacity none none log).after Session.machine
      hs).shared.queue.Plain) :
    ((Traffic.fresh capacity none none log).after Session.machine hs).Chronicled
      ((Traffic.fresh capacity none none log).chronicle hs) where
  balanced t := (books_after none none log hpos hmax hs t).1
  pending t := (books_after none none log hpos hmax hs t).2
  answers t := by
    rw [filterMap_marksOf, completed_chronicle none none log hpos hmax hs]
    rfl
  recent := recentMarks_eq_self fun n hn => by
    rw [noted_chronicle none none log hpos hmax hs] at hn
    exact Note.not_isEmptied (hplain.notes n hn)

variable {l : Pipeline α} {hs₁ hs₂ : List (Happening (Operation α))}

/-- A run of a pipeline after which no task can move ends in a world that is still. -/
theorem Pipeline.still_after {w₁ w : Traffic α} (hpos : 0 < capacity)
    (hmax : capacity ≤ Semaphore.maxPermits)
    (hw₁ : w₁ = (Traffic.fresh capacity none none log).after Session.machine hs₁)
    (hw : w = w₁.after Session.machine hs₂) (henrolled : w₁.Enrolled l.producers.card)
    (hgiven : ∀ t, w₁.given Session.machine t hs₂ = l.plan t) (hcalm : w.LoggerCalm)
    (hquiet : w.Quiescent Session.machine) :
    l.Still w₁ w ∧ w.shared.queue.capacity = capacity := by
  have hfollows : l.Follows w₁ w := hw ▸ Pipeline.follows_of_given henrolled hgiven
  have hassigned (t : Int) : w.assigned t = w₁.finished t ++ l.plan t := by
    rw [hw, World.assigned_after, henrolled.assigned_eq, hgiven]
  have hunderway : l.Underway w := by
    rw [hw] at hcalm hfollows ⊢
    exact underway_after hpos hmax hw₁ henrolled hcalm hfollows
  have hjoin : w = (Traffic.fresh capacity none none log).after Session.machine (hs₂ ++ hs₁) := by
    rw [World.after_append, ← hw₁, ← hw]
  have hhooks : w.HooksCalm := fun stage entry text hm => by
    cases hunderway.smooth.plain.notes _ hm
  have hcap : w.shared.queue.capacity = capacity := by
    have hboth : w.Calm := ⟨hhooks, hcalm⟩
    rw [hjoin] at hboth ⊢
    exact (World.exact_after hpos hmax hboth).2
  refine ⟨⟨hunderway, hfollows, hassigned, hquiet, ?_, hcap.symm ▸ hpos, ?_, ?_⟩, hcap⟩
  · exact hjoin ▸ World.regular_after none none log hpos hmax _
  · exact hjoin ▸ World.markers_after hpos hmax _
  · exact hw ▸ World.answers_mono Session.machine w₁ hs₂

/-- **Pipelines run to completion.**  When everything was handed out and no task can move, every
consumer has finished with a list and no error.  The lists make up the items of the producers, and
what a consumer got from a producer is in the order in which the producer put it.  Only
deregistrations can be blocked, and none is if there is a slot for the marker of each producer. -/
theorem Pipeline.completes (hproducers : l.producers.Nonempty) (hconsumers : l.consumers.Nonempty)
    (hpos : 0 < capacity) (hmax : capacity ≤ Semaphore.maxPermits) :
    let w₀ : Traffic α := .fresh capacity none none log
    let w₁ := w₀.after Session.machine hs₁
    let w := w₁.after Session.machine hs₂
    let c := w₀.chronicle (hs₂ ++ hs₁)
    w₁.Enrolled l.producers.card → (∀ t, w₁.given Session.machine t hs₂ = l.plan t) →
    w.LoggerCalm → w.Quiescent Session.machine →
      (∃ got : Int → List α,
        (∀ u ∈ l.consumers, w.tasks.get u = .free ∧
          w.answersTo u = (.collect, .listed (got u) none) :: w₁.answersTo u) ∧
        ∑ u ∈ l.consumers, (got u : Multiset α) = ∑ p ∈ l.producers, (l.items p : Multiset α) ∧
        ∃ exchanges : List (Exchange α),
          exchanges.map (fun x => (x.giver, x.item)) = handedIn c ∧
          exchanges.map (fun x => (x.taker, x.item)) = handedOut c ∧ l.Delivers exchanges got) ∧
      (∀ t op on, w.BlockedIn t op on → op = .deregister ∧ on = .free) ∧
      (l.producers.card ≤ capacity → ∀ t, w.tasks.get t = .free) := by
  intro w₀ w₁ w c henrolled hgiven hcalm hquiet
  obtain ⟨hstill, hcap⟩ : l.Still w₁ w ∧ w.shared.queue.capacity = capacity :=
    still_after log hpos hmax rfl rfl henrolled hgiven hcalm hquiet
  have hjoin : w = w₀.after Session.machine (hs₂ ++ hs₁) := (World.after_append hs₂ hs₁).symm
  have hplain : w.shared.queue.Plain := hstill.underway.smooth.plain
  have hc : w.Chronicled c := by
    rw [hjoin] at hplain ⊢
    exact World.chronicled log hpos hmax _ hplain
  have hflow : (handedIn c).map Prod.snd = (handedOut c).map Prod.snd ++
      w.shared.queue.ring.contents.filterMap Entry.item? := by
    rw [hjoin]
    exact World.handedIn_eq none none log hpos hmax _
  exact ⟨hstill.exists_got hproducers hconsumers hc hflow,
    (hstill.consumers_free hproducers hconsumers).2, fun hle =>
    hstill.free_of_card_le hproducers hconsumers (hcap.symm ▸ hle)⟩

end Fresh

namespace Pipeline

/-- Two producers of an item each, and a consumer. -/
def couple : Pipeline Nat where
  producers := {1, 2}
  consumers := {3}
  items t := if t = 1 then [5] else [6]
  disjoint := by decide

/-- Two producers are registered. -/
def coupleEnrolled : List (Happening (Operation Nat)) :=
  [.advance 1, .advance 1, .handOut ⟨1, [.perform .register, .perform .register]⟩]

/-- Both producers leave a queue with a single slot.  The consumer puts the marker of the first one
back before the second one gets the slot. -/
def coupleLeaving : List (Happening (Operation Nat)) :=
  [3, 3, 3, 3, 3, 3, 3, 1, 1, 1, 1, 3, 3, 3, 3, 2, 2, 2, 2, 2, 3, 3, 3, 3, 1, 1, 1, 1, 1].map
      .advance ++
    [.handOut ⟨3, [.perform .collect]⟩,
      .handOut ⟨2, [.perform (.enqueue 6), .perform .deregister]⟩,
      .handOut ⟨1, [.perform (.enqueue 5), .perform .deregister]⟩]

theorem completes_couple :
    let w₁ := (Traffic.fresh 1 none none (.blank none)).after Session.machine coupleEnrolled
    let w := w₁.after Session.machine coupleLeaving
    (w₁.Enrolled 2 ∧ (∀ t, w₁.given Session.machine t coupleLeaving = couple.plan t) ∧
      w.LoggerCalm ∧ w.Quiescent Session.machine) ∧
    (w.advance Session.machine 2).2 = .blocked .free ∧ w.tasks.get 3 = .free ∧
    ∃ items, w.answersTo 3 = [(.collect, .listed items none)] ∧
      (items : Multiset Nat) = {5, 6} := by
  intro w₁ w
  have henrolled : w₁.Enrolled 2 := by
    refine ⟨fun t => ?_, fun x hx => ?_, rfl⟩
    · rcases w₁.tasks.mem_or_get_eq_free t with ⟨x, hx⟩ | hfree
      · cases List.mem_singleton.1 hx
        rfl
      · rw [hfree]; rfl
    · have hx : x ∈ [(1, .register, .done), (1, .register, .done)] := hx
      have hx : x = (1, .register, .done) := by simpa using hx
      rw [hx]
  have hgiven (t : Int) : w₁.given Session.machine t coupleLeaving = couple.plan t := by
    by_cases ht : t = 1 ∨ t = 2 ∨ t = 3
    · rcases ht with rfl | rfl | rfl <;> rfl
    · rw [plan_of_other (by simp [couple]; omega) (by simp [couple]; omega)]
      refine World.given_eq_nil fun a ha => ?_
      have ha : a = ⟨3, [.perform .collect]⟩ ∨
          a = ⟨2, [.perform (.enqueue 6), .perform .deregister]⟩ ∨
          a = ⟨1, [.perform (.enqueue 5), .perform .deregister]⟩ := by
        simpa [coupleLeaving] using ha
      rcases ha with rfl | rfl | rfl <;> exact fun heq => ht (heq ▸ by decide)
  have hcalm : w.LoggerCalm := World.loggerCalm_of_all (by decide +kernel)
  have hquiet : w.Quiescent Session.machine := by
    have hall : ∀ e ∈ w.tasks, (w.advance Session.machine e.1).2 = .idle ∨
        (w.advance Session.machine e.1).2 = .blocked .free := by decide +kernel
    exact World.quiescent_of_roster fun e he => (hall e he).imp_right fun h => ⟨.free, h⟩
  obtain ⟨⟨got, hgot, hsum, -⟩, -⟩ := completes (.blank none) ⟨1, by decide⟩ ⟨3, by decide⟩
    (by decide) (by decide) henrolled hgiven hcalm hquiet
  obtain ⟨hfree, hanswers⟩ := hgot 3 (by decide)
  rw [couple, Finset.sum_singleton] at hsum
  exact ⟨⟨henrolled, hgiven, hcalm, hquiet⟩, by decide +kernel, hfree, got 3, hanswers, hsum⟩

end Pipeline

end BoundedQueue
