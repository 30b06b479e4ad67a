import BoundedQueue.Proofs.Queue.Smooth
import BoundedQueue.Proofs.Session.Progress
import Mathlib.Algebra.BigOperators.Group.Finset.Piecewise
import Mathlib.Algebra.Order.BigOperators.Group.Finset

/-!
# Pipelines

In a `Pipeline` some tasks put their items and then deregister, and some others collect whatever
comes.  The registrations are made beforehand.

While the tasks of a pipeline are under way, whatever the interleaving, everything goes well.  The
point of it is that a producer which has not deregistered is still counted, so that there is a
producer whenever an item is handed in, and that only the last producer takes the count to 0.

* `plan` is what a task is told to perform, and `Follows` says that the tasks keep to it: what they
  were told so far is a beginning of the plan.
* `leavers` is how many producers have left, and it is read off what the tasks have begun, not off
  the queue.  A producer leaves last of all (`of_plan`), so that while it puts items it has not left
  (`leavers_lt`).
* `Underway` is the invariant: calls go well in the sense of `Queue.Smooth`, every operation that
  was answered has done what it is for, and the count of producers is the number of those that have
  not left.  `Underway.stride` is the step, and `underway_after` the run.
* `Enrolled` and `Enrolling` are about the registrations, after which the queue is fresh but for the
  count (`enrolling_after`).
-/

set_option autoImplicit false

namespace BoundedQueue

variable {α : Type}

/-- Tasks that put items, and tasks that collect them. -/
structure Pipeline (α : Type) where
  producers : Finset Int
  consumers : Finset Int
  /-- The items that a producer is to put, in this order. -/
  items : Int → List α
  disjoint : Disjoint producers consumers

namespace Operation

/-- Whether an operation is that of a producer that leaves. -/
def isDeregister : Operation α → Bool
  | deregister => true
  | _ => false

/-- Whether an operation is one of those that tasks in a pipeline are told to perform. -/
def isPiped : Operation α → Bool
  | enqueue _ | deregister | collect => true
  | _ => false

/-- Whether an operation, one of a pipeline or a registration, has done what it is for. -/
def Succeeds (op : Operation α) (a : Answer α) : Prop :=
  match op with
  | collect => ∃ items, a = .listed items none
  | _ => a = .done

theorem isCalling_of_isPiped {op : Operation α} (h : op.isPiped = true) : op.isCalling = true := by
  cases op with
  | enqueue | deregister | collect => rfl
  | _ => cases h

end Operation

namespace Pipeline

variable (l : Pipeline α)

/-- What a task is told to perform. -/
def plan (t : Int) : List (Operation α) :=
  if t ∈ l.producers then (l.items t).map .enqueue ++ [.deregister]
  else if t ∈ l.consumers then [.collect]
  else []

variable {l} {t : Int} {op : Operation α} {ops : List (Operation α)}

theorem plan_of_producer (h : t ∈ l.producers) :
    l.plan t = (l.items t).map .enqueue ++ [.deregister] := if_pos h

theorem plan_of_consumer (h : t ∈ l.consumers) : l.plan t = [.collect] := by
  rw [plan, if_neg fun ht => Finset.disjoint_left.1 l.disjoint ht h, if_pos h]

theorem plan_of_other (hp : t ∉ l.producers) (hc : t ∉ l.consumers) : l.plan t = [] := by
  rw [plan, if_neg hp, if_neg hc]

theorem isDeregister_enqueues (items : List α) :
    (items.map Operation.enqueue).countP Operation.isDeregister = 0 := by
  rw [List.countP_map]
  exact List.countP_eq_zero.2 fun _ _ => Bool.false_ne_true

theorem countP_plan_le (l : Pipeline α) (t : Int) :
    (l.plan t).countP Operation.isDeregister ≤ 1 := by
  unfold plan
  split
  · rw [List.countP_append, isDeregister_enqueues]; exact Nat.le_refl _
  · split <;> exact Nat.zero_le _

/-- A task of a pipeline leaves last of all, if it is a producer, and never otherwise. -/
theorem of_plan (h : ops ++ [op] <+: l.plan t) :
    op.isPiped = true ∧ ops.countP Operation.isDeregister = 0 ∧
      (op.isDeregister = true ∨ (∃ a, op = .enqueue a) → t ∈ l.producers) := by
  unfold plan at h
  split at h
  · next ht =>
    rcases List.prefix_concat_iff.1 h with h | h
    · obtain ⟨rfl, hop⟩ := List.append_inj' h rfl
      cases hop
      exact ⟨rfl, isDeregister_enqueues _, fun _ => ht⟩
    · obtain ⟨a, -, rfl⟩ := List.mem_map.1 (h.subset (List.mem_append_right _ List.mem_cons_self))
      refine ⟨rfl, Nat.le_zero.1 ?_, fun _ => ht⟩
      exact isDeregister_enqueues (l.items t) ▸
        ((List.prefix_append ops _).trans h).sublist.countP_le
  · split at h
    · obtain rfl : ops = [] := by
        have hlen := h.length_le
        rw [List.length_append] at hlen
        exact List.eq_nil_of_length_eq_zero (Nat.le_zero.1 (Nat.le_of_succ_le_succ hlen))
      obtain rfl := List.singleton_prefix_cons_iff.1 h
      exact ⟨rfl, rfl, by rintro (hop | ⟨a, hop⟩) <;> cases hop⟩
    · exact absurd (List.prefix_nil.1 h) (List.append_ne_nil_of_right_ne_nil _ nofun)

/-! ## Keeping to the plan -/

/-- The tasks keep to the plan of a pipeline, which begins in world `w₁` after registrations. -/
structure Follows (l : Pipeline α) (w₁ w : Traffic α) : Prop where
  registered : ∀ t, ∀ op ∈ w₁.finished t, op = .register
  finished : ∀ t, w₁.finished t <+: w.finished t
  begun : ∀ t, w.begun t <+: w₁.finished t ++ l.plan t

/-- How many producers have left. -/
def leavers (l : Pipeline α) (w : Traffic α) : Nat :=
  ∑ t ∈ l.producers, (w.begun t).countP Operation.isDeregister

namespace Follows

variable {w₁ w w' : Traffic α} {e : Engagement α} {q' : Queue α}
  {move : Move (Phase α) Side (Outcome α)}

theorem countP_registered (h : l.Follows w₁ w) (t : Int) :
    (w₁.finished t).countP Operation.isDeregister = 0 :=
  List.countP_eq_zero.2 fun op hop => by rw [h.registered t op hop]; exact Bool.false_ne_true

/-- Tasks are only told to do what takes a call. -/
theorem isCalling (h : l.Follows w₁ w) {op : Operation α} (hop : op ∈ w.begun t) :
    op.isCalling = true := by
  rcases List.mem_append.1 ((h.begun t).subset hop) with hop | hop
  · rw [h.registered t op hop]; rfl
  · obtain ⟨ops, rest, hplan⟩ := List.append_of_mem hop
    have hprefix : ops ++ [op] <+: l.plan t := ⟨rest, by rw [hplan, List.append_assoc]; rfl⟩
    exact Operation.isCalling_of_isPiped (of_plan hprefix).1

/-- A stride is one of the plan. -/
theorem of_stride (h : l.Follows w₁ w) (h' : l.Follows w₁ w') (hs : w.Stride w' t e q' move) :
    e.op.isPiped = true ∧ (w.finished t).countP Operation.isDeregister = 0 ∧
      (e.op.isDeregister = true ∨ (∃ a, e.op = .enqueue a) → t ∈ l.producers) := by
  obtain ⟨ops, hops⟩ := h.finished t
  have hbegun := h'.begun t
  rw [hs.begun_self, ← hops, List.append_assoc, List.prefix_append_right_inj] at hbegun
  obtain ⟨hpiped, hcount, hmem⟩ := of_plan hbegun
  refine ⟨hpiped, ?_, hmem⟩
  rw [← hops, List.countP_append, h.countP_registered, hcount]

/-- While a producer has not left, not all have. -/
theorem leavers_lt (h : l.Follows w₁ w) (ht : t ∈ l.producers)
    (h0 : (w.begun t).countP Operation.isDeregister = 0) : l.leavers w < l.producers.card := by
  have hle (u : Int) : (w.begun u).countP Operation.isDeregister ≤ 1 := by
    refine (h.begun u).sublist.countP_le.trans ?_
    rw [List.countP_append, h.countP_registered, Nat.zero_add]
    exact l.countP_plan_le u
  rw [Finset.card_eq_sum_ones]
  exact Finset.sum_lt_sum (fun u _ => hle u) ⟨t, ht, by rw [h0]; exact Nat.zero_lt_one⟩

end Follows

end Pipeline

/-! ## The calls of a pipeline -/

/-- A call that hands in an item has it for its errand. -/
theorem Phase.exists_of_delivers {p : Phase α} (h : p.delivers = true) :
    ∃ a, p.errand? = some (.deliver a) := by
  cases p with
  | askFree errand | awaitFree errand | store errand | refundFree errand | publish errand
  | settle errand =>
    cases errand with
    | deliver a => exact ⟨a, rfl⟩
    | farewell | relay => cases h
  | _ => cases h

section Piped

variable {op : Operation α} {c : Call α} {spot : Spot α} {p : Phase α}

theorem Operation.isPlain_of_isPiped (h : op.isPiped = true) (hc : op.call? = some c)
    (hreach : c.Reaches spot) : spot.isPlain = true := by
  cases spot with
  | phase => rfl
  | opening c' =>
    cases hreach
    cases op with
    | enqueue | deregister | collect => cases hc; rfl
    | _ => cases h

/-- Only an operation that is to put an item hands one in. -/
theorem Operation.exists_of_delivers (h : op.isPiped = true) (hc : op.call? = some c)
    (hv : c.Visits p) (hp : p.delivers = true) : ∃ a, op = .enqueue a := by
  obtain ⟨a, ha⟩ := Phase.exists_of_delivers hp
  cases op with
  | enqueue a => exact ⟨a, rfl⟩
  | deregister => cases hc; cases ha.symm.trans hv
  | collect =>
    cases hc
    rcases hv with hv | ⟨hv, -⟩
    · cases ha.symm.trans hv
    · cases ha.symm.trans hv
  | _ => cases h

/-- A producer that leaves does so at the opening of its call. -/
theorem Engagement.countP_op {e : Engagement α} (h : e.op.isPiped = true)
    (hc : e.op.call? = some c) (hreach : c.Reaches e.spot) :
    [e.op].countP Operation.isDeregister =
      e.current.countP Operation.isDeregister + e.spot.lowerings := by
  obtain ⟨op, purpose, spot, todo⟩ := e
  cases spot with
  | phase => rfl
  | opening c' =>
    cases hreach
    cases op with
    | enqueue | deregister | collect => cases hc; rfl
    | _ => cases h

end Piped

/-- An operation of a pipeline succeeds if its call ends well. -/
theorem Operation.succeeds_of_conclude {s : Session α} {op : Operation α} {c : Call α}
    {purpose : Purpose α} {o : Outcome α} {a : Answer α} (h : op.isPiped = true)
    (hc : op.call? = some c) (hs : op.Serves purpose) (ho : o.isWell = true)
    (hdone : o = .done ↔ c ≠ .dequeue) (ha : (s.conclude o purpose).2 = .finish a) :
    op.Succeeds a ∧ (op.call? = some .dequeue → o = .drained) := by
  cases hs with
  | enqueue | deregister =>
    cases hc
    obtain rfl := hdone.2 nofun
    cases ha
    exact ⟨rfl, nofun⟩
  | collect got =>
    cases hc
    cases o with
    | drained => cases ha; exact ⟨⟨_, rfl⟩, fun _ => rfl⟩
    | item => cases ha
    | done => exact absurd rfl (hdone.1 rfl)
    | full | failed | panicked => cases ho
  | _ => cases h

namespace Pipeline

/-! ## Under way -/

/-- Everything goes well, and every producer is counted until it leaves. -/
structure Underway (l : Pipeline α) (w : Traffic α) : Prop where
  smooth : w.shared.queue.Smooth w.phases
  producers_add : w.shared.queue.producers + l.leavers w = l.producers.card
  departures_add : w.shared.queue.departures + w.shared.queue.producers = l.producers.card
  succeeded : ∀ t op a, (t, op, a) ∈ w.answers → op.Succeeds a
  concluded : ∀ t op a, (t, op, a) ∈ w.answers → op.call? = some .dequeue →
    .concluded ∈ w.shared.queue.history

section Step

variable {l : Pipeline α} {w₁ w w' : Traffic α} {t : Int} {e : Engagement α} {r : Option Remark}
  {q' : Queue α} {move : Move (Phase α) Side (Outcome α)}

/-- An idle step changes nothing that matters. -/
theorem Underway.idle (h : l.Underway w) (hw : w.tasks.Sorted) (hs : w.Idle w') :
    l.Underway w' := by
  obtain ⟨log, hlog⟩ := hs.quiet.queue_eq
  have hleavers : l.leavers w' = l.leavers w :=
    Finset.sum_congr rfl fun t _ => congrArg _ (hs.begun_eq t)
  refine ⟨?_, ?_, ?_, ?_, ?_⟩
  · rw [hs.quiet.phases_eq hw, hlog]; exact h.smooth.record log
  · rw [hleavers, hlog]; exact h.producers_add
  · rw [hlog]; exact h.departures_add
  · rw [hs.answers_eq]; exact h.succeeded
  · rw [hs.answers_eq, hlog]; exact h.concluded

/-- The number of leavers grows with every producer that leaves. -/
theorem leavers_stride (hfollows : l.Follows w₁ w) (hfollows' : l.Follows w₁ w')
    (hjobs : w.Jobs) (hs : w.Stride w' t e q' move) :
    l.leavers w' = l.leavers w + e.spot.lowerings := by
  obtain ⟨hpiped, -, hmem⟩ := hfollows.of_stride hfollows' hs
  obtain ⟨⟨c, hc, hreach⟩, -⟩ := hjobs.reaches hs.engaged
  have hop := Engagement.countP_op hpiped hc hreach
  have hterm (u : Int) : (w'.begun u).countP Operation.isDeregister =
      (w.begun u).countP Operation.isDeregister + if u = t then e.spot.lowerings else 0 := by
    split
    · next hu =>
      rw [hu, hs.begun_self, World.begun_of_engagement hs.engaged, List.countP_append,
        List.countP_append, hop, Nat.add_assoc]
    · next hu => rw [hs.begun_of_ne hu, Nat.add_zero]
  rw [leavers, Finset.sum_congr rfl fun u _ => hterm u, Finset.sum_add_distrib,
    Finset.sum_ite_eq']
  by_cases ht : t ∈ l.producers
  · rw [if_pos ht]; rfl
  · have hnone : e.op.isDeregister ≠ true := fun hd => ht (hmem (.inl hd))
    rw [List.countP_cons_of_neg hnone, List.countP_nil] at hop
    rw [if_neg ht, leavers]
    omega

/-- While an item is handed in, and when a producer leaves, a producer is counted. -/
theorem Underway.producers_ne (h : l.Underway w) (hfollows : l.Follows w₁ w)
    (hfollows' : l.Follows w₁ w') (hjobs : w.Jobs) (hs : w.Stride w' t e q' move)
    (he : (∃ a, e.op = .enqueue a) ∨ e.spot = .opening .deregister) :
    w.shared.queue.producers ≠ 0 := by
  obtain ⟨hpiped, hfinished, hmem⟩ := hfollows.of_stride hfollows' hs
  obtain ⟨⟨c, hc, hreach⟩, -⟩ := hjobs.reaches hs.engaged
  have hop := Engagement.countP_op hpiped hc hreach
  have hcurrent : e.current.countP Operation.isDeregister = 0 ∧
      (e.op.isDeregister = true ∨ ∃ a, e.op = .enqueue a) := by
    rcases he with ⟨a, ha⟩ | hspot
    · rw [ha] at hop
      exact ⟨by have : 0 = _ + _ := hop; omega, .inr ⟨a, ha⟩⟩
    · refine ⟨by rw [Engagement.current, hspot]; rfl, .inl ?_⟩
      rw [hspot] at hop
      by_contra hd
      rw [List.countP_cons_of_neg hd] at hop
      exact absurd hop (Nat.ne_of_lt (Nat.succ_pos _))
  have hlt := hfollows.leavers_lt (hmem hcurrent.2) (by
    rw [World.begun_of_engagement hs.engaged, List.countP_append, hfinished, hcurrent.1])
  have hadd := h.producers_add
  omega

/-- The answer that is given after a passage, if one is, is that of an operation that succeeds. -/
theorem Underway.answered (h : l.Underway w) (hjobs : w.Jobs) (hpiped : e.op.isPiped = true)
    (hp : w.shared.queue.Passage e.spot r q' move) (hs : w.Stride w' t e q' move)
    (hwell : ∀ o, move = .finish o → o.isWell = true)
    (hdrained : move = .finish .drained → .concluded ∈ q'.history) :
    ∀ u op a, (u, op, a) ∈ w'.answers → op.Succeeds a ∧
      (op.call? = some .dequeue → .concluded ∈ w'.shared.queue.history) := by
  obtain ⟨⟨c, hc, hreach⟩, hserves⟩ := hjobs.reaches hs.engaged
  obtain ⟨log, hlog⟩ := hs.queue_eq
  obtain ⟨notes, hnotes⟩ := hp.kept.history_eq
  have hold (u : Int) (op : Operation α) (a : Answer α) (hm : (u, op, a) ∈ w.answers) :
      op.Succeeds a ∧ (op.call? = some .dequeue → .concluded ∈ w'.shared.queue.history) := by
    refine ⟨h.succeeded u op a hm, fun hop => ?_⟩
    rw [hlog]
    exact hnotes ▸ List.mem_append_right _ (h.concluded u op a hm hop)
  intro u op a hm
  rcases hs.answered with ⟨heq, -⟩ | ⟨s, o, b, rfl, hb, heq⟩
  · rw [heq] at hm
    exact hold u op a hm
  · rw [heq] at hm
    rcases List.mem_cons.1 hm with hm | hm
    · cases hm
      obtain ⟨hsucceeds, hend⟩ := Operation.succeeds_of_conclude hpiped hc hserves (hwell o rfl)
        (hp.ends hreach (hwell o rfl)) hb
      refine ⟨hsucceeds, fun hop => ?_⟩
      rw [hlog]
      exact hdrained (congrArg _ (hend hop))
    · exact hold u op a hm

/-- **Everything goes on well** after a passage. -/
theorem Underway.stride (h : l.Underway w) (hw : w.Regular) (hfollows : l.Follows w₁ w)
    (hfollows' : l.Follows w₁ w') (hp : w.shared.queue.Passage e.spot r q' move)
    (hs : w.Stride w' t e q' move) : l.Underway w' := by
  have hproducers := h.producers_ne hfollows hfollows' hw.jobs hs
  have hleavers := leavers_stride hfollows hfollows' hw.jobs hs
  obtain ⟨hpiped, -, -⟩ := hfollows.of_stride hfollows' hs
  obtain ⟨⟨c, hc, hreach⟩, -⟩ := hw.jobs.reaches hs.engaged
  have hplain := Operation.isPlain_of_isPiped hpiped hc hreach
  have hsmooth := h.smooth
  rw [hs.before hw.sorted] at hsmooth
  obtain ⟨hsmooth', hwell, hdrained⟩ := hp.smooth hw.within.ringSound hsmooth hplain
    (fun p hmem hd => hproducers (.inl
      (Operation.exists_of_delivers hpiped hc (hp.visits hreach (Move.phases_of_mem hmem)) hd)))
    fun hspot => hproducers (.inr hspot)
  obtain ⟨hadd', hdep'⟩ := hp.producers_add hplain hsmooth.exact.producersSound fun hspot =>
    hproducers (.inr hspot)
  have hadd := h.producers_add
  have hdep := h.departures_add
  have hanswers := h.answered hw.jobs hpiped hp hs hwell hdrained
  obtain ⟨log, hlog⟩ := hs.queue_eq
  refine ⟨?_, ?_, ?_, fun u op a hm => (hanswers u op a hm).1,
    fun u op a hm => (hanswers u op a hm).2⟩
  · rw [hlog]
    rcases hs.after hw.sorted with ha | ⟨⟨a, rfl⟩, ha⟩
    · rw [ha]; exact hsmooth'.record log
    · rw [ha]
      rw [Move.phases, zero_add] at hsmooth'
      exact (hsmooth'.record log).askFilled
  · rw [hlog]
    show q'.producers + _ = _
    omega
  · rw [hlog]
    show q'.departures + q'.producers = _
    omega

end Step

end Pipeline

/-! ## Before the pipeline -/

/-- A queue on which `n` producers have been registered, and nothing else has happened. -/
def Queue.enrolled (capacity : Nat) (log : Logbook) (n : Nat) : Queue α :=
  { Queue.fresh capacity none none log with producers := n, history := List.replicate n .raised }

theorem Queue.mem_enrolled {capacity n : Nat} {log : Logbook} {note : Note α}
    (h : note ∈ (Queue.enrolled capacity log n).history) : note = .raised :=
  (List.mem_replicate.1 h).2

theorem Queue.departures_enrolled (capacity : Nat) (log : Logbook) (n : Nat) :
    (Queue.enrolled (α := α) capacity log n).departures = 0 :=
  List.countP_eq_zero.2 fun note h => by
    rw [mem_enrolled ((List.takeWhile_sublist _).subset h)]; exact Bool.false_ne_true

theorem Queue.smooth_enrolled (capacity : Nat) (log : Logbook) (n : Nat) :
    (Queue.enrolled (α := α) capacity log n).Smooth 0 where
  plain := ⟨rfl, rfl, fun note h => by rw [mem_enrolled h]; rfl⟩
  exact := ⟨rfl, rfl, rfl, rfl⟩
  told _ h := by rw [departures_enrolled] at h; cases h
  untroubled _ h := absurd h (Multiset.notMem_zero _)
  closed := ⟨fun _ h => absurd h (Multiset.notMem_zero _), fun h => by cases mem_enrolled h⟩

/-- Registering counts one producer more. -/
theorem Queue.Passage.enrolled {capacity n : Nat} {log : Logbook} {spot : Spot α}
    {r : Option Remark} {q' : Queue α} {move : Move (Phase α) Side (Outcome α)}
    (h : (Queue.enrolled capacity log n).Passage spot r q' move)
    (hspot : spot = .opening .register) :
    q' = Queue.enrolled capacity log (n + 1) ∧ move = .finish .done := by
  subst hspot
  rcases h.register_cases with ⟨hp, -⟩ | ⟨rfl, rfl⟩
  · cases hp
  · exact ⟨rfl, rfl⟩

namespace World

/-- `n` producers are registered, and nobody was told to do anything else. -/
structure Enrolled (w : Traffic α) (n : Nat) : Prop where
  finished : ∀ t, (w.tasks.get t).isUnfinished = false
  registrations : ∀ x ∈ w.answers, x.2.1 = .register
  count : w.answers.length = n

variable {w : Traffic α} {n : Nat} {t : Int}

theorem Enrolled.begun_eq (h : w.Enrolled n) (t : Int) : w.begun t = w.finished t := by
  rw [begun, Task.eq_free (h.finished t)]
  exact List.append_nil _

theorem Enrolled.assigned_eq (h : w.Enrolled n) (t : Int) : w.assigned t = w.finished t := by
  rw [assigned, h.begun_eq, Task.eq_free (h.finished t)]
  exact List.append_nil _

theorem Enrolled.eq_register (h : w.Enrolled n) {op : Operation α} (hop : op ∈ w.finished t) :
    op = .register := by
  rw [finished_eq_answersTo, List.mem_reverse, List.mem_map] at hop
  obtain ⟨x, hx, rfl⟩ := hop
  exact h.registrations _ (mem_answersTo.1 hx)

/-- After some registrations, one for each answer, the queue is fresh but for the producers. -/
structure Enrolling (capacity : Nat) (w : Traffic α) : Prop where
  queue_eq : ∃ log, w.shared.queue = .enrolled capacity log w.answers.length
  phases_eq : w.phases = 0
  done : ∀ x ∈ w.answers, x.2.2 = .done

theorem LoggerCalm.before (m : Machine (Session α) (Operation α) (Job α) Side (Answer α))
    (x : Happening (Operation α)) (h : (w.happen m x).LoggerCalm) : w.LoggerCalm := by
  obtain ⟨new, he⟩ := happen_events m w x
  intro t op hm
  exact h t op (he ▸ List.mem_append_right _ hm)

/-- A step of a registration ends it, and counts one producer more. -/
theorem Enrolling.stride {capacity : Nat} {w' : Traffic α} {e : Engagement α} {r : Option Remark}
    {q' : Queue α} {move : Move (Phase α) Side (Outcome α)} (h : Enrolling capacity w)
    (hw : w.Regular) (hop : e.op = .register) (hp : w.shared.queue.Passage e.spot r q' move)
    (hs : w.Stride w' t e q' move) : Enrolling capacity w' := by
  obtain ⟨⟨log, hqueue⟩, hphases, hdone⟩ := h
  obtain ⟨⟨c, hc, hreach⟩, hserves⟩ := hw.jobs.reaches hs.engaged
  rw [hop] at hc hserves
  cases hc
  have hspot : e.spot = .opening .register := by
    rcases hsp : e.spot with c | p
    · rw [hsp] at hreach; exact congrArg _ hreach
    · rw [hsp] at hreach; cases hreach
  rw [hqueue] at hp
  obtain ⟨rfl, rfl⟩ := hp.enrolled hspot
  obtain ⟨log', hlog⟩ := hs.queue_eq
  have hbefore := hs.before hw.sorted
  rw [hphases, hspot, Spot.phases, zero_add] at hbefore
  rcases hs.answered with ⟨-, hitem⟩ | ⟨s, o, a, ho, ha, hanswers⟩
  · obtain ⟨b, hb⟩ := hitem _ rfl
    cases hb
  · cases ho
    generalize e.purpose = purpose at ha hserves
    cases hserves
    cases ha
    refine ⟨⟨log', ?_⟩, ?_, ?_⟩
    · rw [hlog, hanswers]; rfl
    · rcases hs.after hw.sorted with hafter | ⟨⟨a, ha⟩, -⟩
      · rw [hafter, ← hbefore]; rfl
      · cases ha
    · rw [hanswers]
      exact List.forall_mem_cons.2 ⟨rfl, hdone⟩

section Fresh

variable {capacity : Nat} (log : Logbook)

/-- Registrations do nothing but count producers. -/
theorem enrolling_after (hpos : 0 < capacity) (hmax : capacity ≤ Semaphore.maxPermits)
    {hs : List (Happening (Operation α))}
    (hcalm : ((Traffic.fresh capacity none none log).after Session.machine hs).LoggerCalm)
    (hops : ∀ t, ∀ op ∈ ((Traffic.fresh capacity none none log).after Session.machine hs).begun t,
      op = .register) :
    Enrolling capacity ((Traffic.fresh capacity none none log).after Session.machine hs) := by
  induction hs with
  | nil => exact ⟨⟨log, rfl⟩, rfl, fun x hx => absurd hx List.not_mem_nil⟩
  | cons x hs ih =>
    have hw := regular_after none none log hpos hmax hs
    rw [after_cons] at hcalm hops ⊢
    specialize ih (hcalm.before _ x) fun t op hop =>
      hops t op ((begun_mono _ _ t x).subset hop)
    generalize (Traffic.fresh capacity none none log).after Session.machine hs = w at *
    have hcalling (t : Int) (op : Operation α)
        (hop : op ∈ (w.happen Session.machine x).begun t) : op.isCalling = true := by
      rw [hops t op hop]; rfl
    rcases exists_progress hw x hcalling hcalm with hidle | ⟨t, e, r, q', move, hp, hs⟩
    · obtain ⟨⟨log', hqueue⟩, hphases, hdone⟩ := ih
      obtain ⟨log'', hlog⟩ := hidle.quiet.queue_eq
      refine ⟨⟨log'', ?_⟩, (hidle.quiet.phases_eq hw.sorted).trans hphases, ?_⟩
      · rw [hlog, hidle.answers_eq, hqueue]; rfl
      · rw [hidle.answers_eq]; exact hdone
    · have hop : e.op = .register := hops t e.op (by
        rw [hs.begun_self]
        exact List.mem_append_right _ List.mem_cons_self)
      exact ih.stride hw hop hp hs

/-- Once the producers are registered, a pipeline is ready to run. -/
theorem Enrolled.underway {l : Pipeline α} (hpos : 0 < capacity)
    (hmax : capacity ≤ Semaphore.maxPermits) {hs : List (Happening (Operation α))} {w : Traffic α}
    (hw : w = (Traffic.fresh capacity none none log).after Session.machine hs)
    (hcalm : w.LoggerCalm) (h : w.Enrolled l.producers.card) : l.Underway w := by
  have hregister (t : Int) (op : Operation α) (hop : op ∈ w.begun t) : op = .register :=
    h.eq_register (h.begun_eq t ▸ hop)
  have henrolling : Enrolling capacity w := by
    subst hw
    exact enrolling_after log hpos hmax hcalm hregister
  obtain ⟨⟨log', hqueue⟩, hphases, hdone⟩ := henrolling
  rw [h.count] at hqueue
  have hleavers : l.leavers w = 0 :=
    Finset.sum_eq_zero fun t _ => List.countP_eq_zero.2 fun op hop => by
      rw [hregister t op hop]; exact Bool.false_ne_true
  refine ⟨?_, ?_, ?_, ?_, ?_⟩
  · rw [hphases, hqueue]; exact Queue.smooth_enrolled _ _ _
  · rw [hqueue, hleavers]; rfl
  · rw [hqueue, Queue.departures_enrolled]; exact Nat.zero_add _
  · intro t op a hm
    have hop : op = .register := h.registrations _ hm
    have ha : a = .done := hdone _ hm
    rw [hop, ha]
    rfl
  · intro t op a hm hc
    have hop : op = .register := h.registrations _ hm
    rw [hop] at hc
    cases hc

end Fresh

end World

/-! ## The run of a pipeline -/

namespace Pipeline

variable {l : Pipeline α} {w₁ : Traffic α} {n : Nat}

/-- Tasks that are handed what the plan says keep to it. -/
theorem follows_of_given (h : w₁.Enrolled n) {hs : List (Happening (Operation α))}
    (hgiven : ∀ t, w₁.given Session.machine t hs = l.plan t) :
    l.Follows w₁ (w₁.after Session.machine hs) where
  registered _ _ hop := h.eq_register hop
  finished t := w₁.finished_mono _ t hs
  begun t := by
    have hassigned := w₁.assigned_after Session.machine t hs
    rw [h.assigned_eq, hgiven] at hassigned
    exact ⟨_, hassigned⟩

theorem Follows.before {x : Happening (Operation α)} {hs : List (Happening (Operation α))}
    (h : l.Follows w₁ (w₁.after Session.machine (x :: hs))) :
    l.Follows w₁ (w₁.after Session.machine hs) where
  registered := h.registered
  finished t := w₁.finished_mono _ t hs
  begun t := (World.begun_mono _ _ t x).trans (h.begun t)

/-- **Everything goes well in the run of a pipeline**, whatever the interleaving. -/
theorem underway_after {capacity : Nat} {log : Logbook} (hpos : 0 < capacity)
    (hmax : capacity ≤ Semaphore.maxPermits) {hs₁ hs₂ : List (Happening (Operation α))}
    (hw₁ : w₁ = (Traffic.fresh capacity none none log).after Session.machine hs₁)
    (h : w₁.Enrolled l.producers.card)
    (hcalm : (w₁.after Session.machine hs₂).LoggerCalm)
    (hfollows : l.Follows w₁ (w₁.after Session.machine hs₂)) :
    l.Underway (w₁.after Session.machine hs₂) := by
  induction hs₂ with
  | nil => exact h.underway log hpos hmax hw₁ hcalm
  | cons x hs₂ ih =>
    have hbefore := hfollows.before
    have hjoin : w₁.after Session.machine hs₂ = _ := hw₁ ▸ (World.after_append hs₂ hs₁).symm
    have hw := World.regular_after none none log hpos hmax (hs₂ ++ hs₁)
    rw [← hjoin] at hw
    rw [World.after_cons] at hcalm hfollows ⊢
    specialize ih (hcalm.before _ x) hbefore
    rcases World.exists_progress hw x (fun t op hop => hfollows.isCalling hop) hcalm with
      hidle | ⟨t, e, r, q', move, hp, hs⟩
    · exact ih.idle hw.sorted hidle
    · exact ih.stride hw hbefore hfollows hp hs

end Pipeline

end BoundedQueue
