import BoundedQueue.Proofs.Schedule.Settling

/-!
# Nobody waits while there is a permit

In a run queue a task that finds no permit joins the waiters, and somebody else has to wake it.
A `Supply` says how many permits there are and at which places tasks wait for one.  `Orderly` is the
invariant: every unfinished task is in line or waits, but never both and never twice, and wherever
somebody waits, there are no more permits than tasks that were woken for one and have not asked
again.  A permit may go to somebody else than the task that was woken for it; then that task waits
again.

It takes a machine whose sections mind the supply: a section waits only where there is nothing,
signals a permit that it returns, and takes one after it has waited for one.  When nobody is in line
any more, every unfinished task waits, and for something of which there is nothing:
`AtRest.blocked`.
-/

set_option autoImplicit false

namespace BoundedQueue

variable {σ ω κ ι ρ : Type}

/-- What tasks wait for. -/
structure Supply (σ κ ι : Type) where
  /-- How many permits of a kind there are. -/
  permits : σ → ι → Nat
  /-- What a task at a place waits for, or was woken for. -/
  awaits : κ → Option ι

/-- What a task waits for, or was woken for. -/
def Task.awaits (g : Supply σ κ ι) (task : Task ω κ) : Option ι :=
  match task.standing with
  | .inside _ k => g.awaits k
  | _ => none

theorem Task.awaits_of_outside {g : Supply σ κ ι} {task : Task ω κ} (h : task.isInside = false) :
    task.awaits g = none := by
  obtain ⟨standing, todo⟩ := task
  cases standing with
  | inside => cases h
  | idle | paused => rfl

/-- If no task but `t` stands inside an operation, then no other one does. -/
theorem Roster.outside_of_othersOutside {r : Roster ω κ} {t u : Int}
    (h : r.othersOutside t = true) (hu : u ≠ t) : (r.get u).isInside = false := by
  induction r with
  | nil => rfl
  | cons e r ih =>
    obtain ⟨v, x⟩ := e
    rw [othersOutside, List.all_cons, Bool.and_eq_true] at h
    obtain ⟨hhead, htail⟩ := h
    rw [get]
    split
    · next hv => simpa [hv, hu] using hhead
    · exact ih htail

namespace RunQueue

/-- The numbers of the tasks that wait. -/
def waiters (s : RunQueue σ ω κ ι ρ) : List Int := s.waiting.map Prod.snd

theorem mem_waiters {s : RunQueue σ ω κ ι ρ} {i : ι} {t : Int} (h : (i, t) ∈ s.waiting) :
    t ∈ s.waiters :=
  List.mem_map.2 ⟨_, h, rfl⟩

theorem exists_of_mem_waiters {s : RunQueue σ ω κ ι ρ} {t : Int} (h : t ∈ s.waiters) :
    ∃ i, (i, t) ∈ s.waiting := by
  obtain ⟨⟨i, u⟩, hu, rfl⟩ := List.mem_map.1 h
  exact ⟨i, hu⟩

end RunQueue

variable [DecidableEq ι]

/-! ## Sections and turns that mind the supply -/

/-- How a section that goes from `s` to `s'` may end.  Before it, its task was waiting for `awaited`
or had been woken for it. -/
inductive Supply.Minds (g : Supply σ κ ι) (awaited : Option ι) (s s' : σ) : Move κ ι ρ → Prop where
  | go {next : κ} (hk : g.awaits next = none)
      (hp : ∀ i, g.permits s' i + (if awaited = some i then 1 else 0) ≤ g.permits s i) :
      Minds g awaited s s' (.go next)
  | wait {on : ι} {retry : κ} (hk : g.awaits retry = some on) (h0 : g.permits s on = 0)
      (ha : ∀ i, awaited = some i → i = on) (hp : ∀ i, g.permits s' i ≤ g.permits s i) :
      Minds g awaited s s' (.wait on retry)
  | signal {on : ι} {next : κ} (hk : g.awaits next = none) (ha : awaited = none)
      (hp : ∀ i, g.permits s' i ≤ g.permits s i + if i = on then 1 else 0) :
      Minds g awaited s s' (.signal on next)
  | finish {result : ρ}
      (hp : ∀ i, g.permits s' i + (if awaited = some i then 1 else 0) ≤ g.permits s i) :
      Minds g awaited s s' (.finish result)

namespace World

/-- Every section that can be carried out next minds the supply.  One that begins and ends an
operation while all other tasks are outside of any need not, because nobody waits then. -/
structure Minding (m : Machine σ ω κ ι ρ) (g : Supply σ κ ι) (w : World σ ω κ ρ) : Prop where
  start : ∀ t op todo, w.tasks.get t = ⟨.idle, .perform op :: todo⟩ →
    g.Minds none w.shared (m.start (w.tasks.othersOutside t) op w.shared).1
        (m.start (w.tasks.othersOutside t) op w.shared).2 ∨
      w.tasks.othersOutside t = true ∧
        ∃ result, (m.start (w.tasks.othersOutside t) op w.shared).2 = .finish result
  resume : ∀ t op k todo, w.tasks.get t = ⟨.inside op k, todo⟩ →
    g.Minds (g.awaits k) w.shared (m.resume k w.shared).1 (m.resume k w.shared).2

/-- What a turn of task `t`, from world `w` to `w'`, does to the supply. -/
def Turned (g : Supply σ κ ι) (w w' : World σ ω κ ρ) (t : Int) : Turn ι → Prop
  | .idle => w' = w ∧ (w.tasks.get t).isUnfinished = false
  | .ran => (w'.tasks.get t).awaits g = none ∧
      ((∀ i, g.permits w'.shared i + (if (w.tasks.get t).awaits g = some i then 1 else 0) ≤
          g.permits w.shared i) ∨
        ∀ u, u ≠ t → (w.tasks.get u).isInside = false)
  | .yielded => w'.shared = w.shared ∧ (w.tasks.get t).awaits g = none ∧
      (w'.tasks.get t).awaits g = none
  | .blocked on => (w'.tasks.get t).awaits g = some on ∧ g.permits w.shared on = 0 ∧
      (∀ i, (w.tasks.get t).awaits g = some i → i = on) ∧
      ∀ i, g.permits w'.shared i ≤ g.permits w.shared i
  | .signalled on => (w'.tasks.get t).awaits g = none ∧ (w.tasks.get t).awaits g = none ∧
      ∀ i, g.permits w'.shared i ≤ g.permits w.shared i + if i = on then 1 else 0

variable {m : Machine σ ω κ ι ρ} {g : Supply σ κ ι} {w : World σ ω κ ρ} {t : Int} {op : ω}
  {todo : List (Instruction ω)}

theorem turned_settleMove {r : σ × Move κ ι ρ}
    (h : g.Minds ((w.tasks.get t).awaits g) w.shared r.1 r.2) :
    Turned g w (w.settleMove t op todo r).1 t (w.settleMove t op todo r).2 := by
  obtain ⟨shared, move⟩ := r
  have hget (x : Task ω κ) : (w.tasks.set t x).get t = x := Roster.get_set_self _ _ _
  cases h with
  | go hk hp => exact ⟨(congrArg _ (hget _)).trans hk, .inl hp⟩
  | wait hk h0 ha hp => exact ⟨(congrArg _ (hget _)).trans hk, h0, ha, hp⟩
  | signal hk ha hp => exact ⟨(congrArg _ (hget _)).trans hk, ha, hp⟩
  | finish hp => exact ⟨congrArg _ (hget _), .inl hp⟩

/-- Every step minds the supply if the sections do. -/
theorem Minding.turned (h : w.Minding m g) (t : Int) :
    Turned g w (w.advance m t).1 t (w.advance m t).2 := by
  have hget (x : Task ω κ) : (w.tasks.set t x).get t = x := Roster.get_set_self _ _ _
  rcases hx : w.tasks.get t with ⟨standing, todo⟩
  have hout (hs : (w.tasks.get t).isInside = false) (i : ι) :
      g.permits w.shared i + (if (w.tasks.get t).awaits g = some i then 1 else 0) ≤
        g.permits w.shared i := by
    rw [Task.awaits_of_outside hs, if_neg nofun]
    exact Nat.le_refl _
  cases standing with
  | inside op k =>
    rw [advance_of_inside m hx]
    refine turned_settleMove ?_
    rw [hx]
    exact h.resume t op k todo hx
  | paused =>
    rw [advance_of_paused m hx]
    exact ⟨congrArg _ (hget _), .inl (hout (by rw [hx]; rfl))⟩
  | idle =>
    cases todo with
    | nil => rw [advance_of_nil m hx]; exact ⟨rfl, by rw [hx]; rfl⟩
    | cons i todo =>
      cases i with
      | perform op =>
        rw [advance_of_perform m hx]
        rcases h.start t op todo hx with hminds | ⟨halone, result, hr⟩
        · refine turned_settleMove ?_
          rw [hx]
          exact hminds
        · generalize m.start (w.tasks.othersOutside t) op w.shared = r at hr
          obtain ⟨shared, move⟩ := r
          cases hr
          exact ⟨congrArg _ (hget _), .inr fun u => Roster.outside_of_othersOutside halone⟩
      | yield =>
        rw [advance_of_yield m hx]
        exact ⟨rfl, by rw [hx]; rfl, congrArg _ (hget _)⟩
      | unreadable name fault =>
        rw [advance_of_unreadable m hx]
        exact ⟨congrArg _ (hget _), .inl (hout (by rw [hx]; rfl))⟩

end World

/-! ## The line and the waiters -/

namespace RunQueue

/-- How many tasks in line were woken for a permit and have not asked again. -/
def woken (g : Supply σ κ ι) (s : RunQueue σ ω κ ι ρ) (i : ι) : Nat :=
  s.ready.countP fun t => (s.world.tasks.get t).awaits g = some i

/-- Everybody has one place, and nobody waits while there is a permit for nobody else. -/
structure Orderly (g : Supply σ κ ι) (s : RunQueue σ ω κ ι ρ) : Prop where
  nodup : (s.ready ++ s.waiters).Nodup
  listed : ∀ t, (s.world.tasks.get t).isUnfinished = true → t ∈ s.ready ++ s.waiters
  awaits : ∀ i t, (i, t) ∈ s.waiting → (s.world.tasks.get t).awaits g = some i
  permits_le : ∀ i t, (i, t) ∈ s.waiting → g.permits s.world.shared i ≤ s.woken g i

/-- Nobody is in line. -/
structure AtRest (g : Supply σ κ ι) (s : RunQueue σ ω κ ι ρ) : Prop where
  orderly : s.Orderly g
  ready_eq : s.ready = []

variable {m : Machine σ ω κ ι ρ} {g : Supply σ κ ι} {s : RunQueue σ ω κ ι ρ}
  {w' : World σ ω κ ρ} {t : Int} {rest : List Int}

/-- The waiter that is taken out is the first one on its list. -/
theorem takeWaiter_cases (on : ι) (l : List (ι × Int)) :
    (takeWaiter on l = none ∧ ∀ i t, (i, t) ∈ l → i ≠ on) ∨
      ∃ u l', takeWaiter on l = some (u, l') ∧ l.Perm ((on, u) :: l') := by
  induction l with
  | nil => exact .inl ⟨rfl, fun _ _ h => absurd h List.not_mem_nil⟩
  | cons e l ih =>
    obtain ⟨i, v⟩ := e
    rw [takeWaiter]
    split
    · next heq => exact .inr ⟨v, l, rfl, by rw [heq]⟩
    · next hne =>
      rcases ih with ⟨hnone, hall⟩ | ⟨u, l', hsome, hperm⟩
      · refine .inl ⟨by rw [hnone]; rfl, fun j t hj => ?_⟩
        rcases List.mem_cons.1 hj with hj | hj
        · cases hj; exact hne
        · exact hall j t hj
      · refine .inr ⟨u, (i, v) :: l', by rw [hsome]; rfl, ?_⟩
        exact (hperm.cons (i, v)).trans (List.Perm.swap _ _ _)

theorem perm_line (wake : Wake) (t u : Int) (rest : List Int) :
    (wake.line t u rest).Perm (u :: t :: rest) := by
  cases wake with
  | later => exact List.perm_append_singleton u (t :: rest)
  | now => exact .refl _

namespace Orderly

theorem notMem_rest (h : s.Orderly g) (hr : s.ready = t :: rest) :
    t ∉ rest ∧ t ∉ s.waiters ∧ (rest ++ s.waiters).Nodup := by
  have hnodup := h.nodup
  rw [hr, List.cons_append, List.nodup_cons, List.mem_append, not_or] at hnodup
  exact ⟨hnodup.1.1, hnodup.1.2, hnodup.2⟩

theorem ne_of_waiting (h : s.Orderly g) (hr : s.ready = t :: rest) {i : ι} {u : Int}
    (hu : (i, u) ∈ s.waiting) : u ≠ t := fun heq =>
  (h.notMem_rest hr).2.1 (heq ▸ mem_waiters hu)

theorem woken_eq (hr : s.ready = t :: rest) (i : ι) : s.woken g i =
    rest.countP (fun u => (s.world.tasks.get u).awaits g = some i) +
      if (s.world.tasks.get t).awaits g = some i then 1 else 0 := by
  rw [woken, hr, List.countP_cons]
  simp only [decide_eq_true_eq]

/-- A task that others are ahead of is where it was after a turn. -/
theorem countP_rest (h : s.Orderly g) (hr : s.ready = t :: rest)
    (hsame : ∀ u, u ≠ t → w'.tasks.get u = s.world.tasks.get u) (i : ι) :
    rest.countP (fun u => (w'.tasks.get u).awaits g = some i) =
      rest.countP (fun u => (s.world.tasks.get u).awaits g = some i) := by
  refine List.countP_congr fun u hu => ?_
  rw [hsame u fun heq => (h.notMem_rest hr).1 (heq ▸ hu)]

/-- Order is kept if everybody keeps a place and only `t` may have begun to wait. -/
theorem moved (h : s.Orderly g) (hr : s.ready = t :: rest)
    (hsame : ∀ u, u ≠ t → w'.tasks.get u = s.world.tasks.get u) {s' : RunQueue σ ω κ ι ρ}
    (hw : s'.world = w') (hperm : (s'.ready ++ s'.waiters).Perm (s.ready ++ s.waiters))
    (hwait : ∀ i u, (i, u) ∈ s'.waiting →
      (i, u) ∈ s.waiting ∨ u = t ∧ (w'.tasks.get t).awaits g = some i)
    (hle : ∀ i u, (i, u) ∈ s'.waiting → g.permits w'.shared i ≤ s'.woken g i) :
    s'.Orderly g := by
  refine ⟨hperm.nodup_iff.2 h.nodup, fun u hu => hperm.mem_iff.2 ?_, fun i u hu => ?_,
    fun i u hu => by rw [hw]; exact hle i u hu⟩
  · by_cases heq : u = t
    · rw [heq, hr]
      exact List.mem_append_left _ List.mem_cons_self
    · rw [hw, hsame u heq] at hu
      exact h.listed u hu
  · rw [hw]
    rcases hwait i u hu with hu | ⟨rfl, ha⟩
    · rw [hsame u (h.ne_of_waiting hr hu)]
      exact h.awaits i u hu
    · exact ha

/-- There are no more permits than tasks that were woken for one, of which the first in line may be
one. -/
theorem permits_le_rest (h : s.Orderly g) (hr : s.ready = t :: rest)
    (hsame : ∀ u, u ≠ t → w'.tasks.get u = s.world.tasks.get u) {i : ι} {u : Int}
    (hu : (i, u) ∈ s.waiting) : g.permits s.world.shared i ≤
      rest.countP (fun u => (w'.tasks.get u).awaits g = some i) +
        if (s.world.tasks.get t).awaits g = some i then 1 else 0 := by
  rw [h.countP_rest hr hsame, ← woken_eq hr]
  exact h.permits_le i u hu

theorem requeue_idle (h : s.Orderly g) (hr : s.ready = t :: rest)
    (hturn : World.Turned g s.world w' t .idle) :
    (RunQueue.requeue { s with world := w' } t rest .idle).Orderly g := by
  obtain ⟨rfl, hfree⟩ := hturn
  refine ⟨(h.notMem_rest hr).2.2, fun u hu => ?_, h.awaits, fun i u hu => ?_⟩
  · have hne : u ≠ t := by
      rintro rfl
      exact absurd hu (by simp only [RunQueue.requeue, hfree, Bool.false_eq_true,
        not_false_eq_true])
    have hmem := h.listed u hu
    rw [hr, List.cons_append, List.mem_cons] at hmem
    exact hmem.resolve_left hne
  · have hle := h.permits_le_rest hr (fun _ _ => rfl) hu
    rw [Task.eq_free hfree] at hle
    exact hle

theorem requeue_ran (h : s.Orderly g) (hr : s.ready = t :: rest)
    (hsame : ∀ u, u ≠ t → w'.tasks.get u = s.world.tasks.get u)
    (hturn : World.Turned g s.world w' t .ran) :
    (RunQueue.requeue { s with world := w' } t rest .ran).Orderly g := by
  obtain ⟨hnone, hpermits⟩ := hturn
  refine h.moved hr hsame rfl (.refl _) (fun i u hu => .inl hu) fun i u hu => ?_
  rw [woken_eq (s := RunQueue.requeue { s with world := w' } t rest .ran) hr]
  show _ ≤ rest.countP (fun u => (w'.tasks.get u).awaits g = some i) +
    if (w'.tasks.get t).awaits g = some i then 1 else 0
  rcases hpermits with hpermits | hout
  · have := hpermits i
    have := h.permits_le_rest hr hsame hu
    omega
  · have hu' := h.awaits i u hu
    rw [Task.awaits_of_outside (hout u (h.ne_of_waiting hr hu))] at hu'
    cases hu'

theorem requeue_yielded (h : s.Orderly g) (hr : s.ready = t :: rest)
    (hsame : ∀ u, u ≠ t → w'.tasks.get u = s.world.tasks.get u)
    (hturn : World.Turned g s.world w' t .yielded) :
    (RunQueue.requeue { s with world := w' } t rest .yielded).Orderly g := by
  obtain ⟨hshared, hbefore, hafter⟩ := hturn
  refine h.moved hr hsame rfl ?_ (fun i u hu => .inl hu) fun i u hu => ?_
  · rw [hr]
    exact (List.perm_append_singleton t rest).append_right _
  · have hle := h.permits_le_rest hr hsame hu
    rw [hbefore, if_neg (by simp)] at hle
    show _ ≤ List.countP (fun u => (w'.tasks.get u).awaits g = some i) (rest ++ [t])
    rw [List.countP_append, hshared]
    omega

/-- A task joins the waiters only where there is nothing. -/
theorem requeue_blocked (h : s.Orderly g) (hr : s.ready = t :: rest)
    (hsame : ∀ u, u ≠ t → w'.tasks.get u = s.world.tasks.get u) {on : ι}
    (hturn : World.Turned g s.world w' t (.blocked on)) :
    (RunQueue.requeue { s with world := w' } t rest (.blocked on)).Orderly g := by
  obtain ⟨hafter, hzero, hbefore, hpermits⟩ := hturn
  have hwait (i : ι) (u : Int) (hu : (i, u) ∈ s.waiting ++ [(on, t)]) :
      (i, u) ∈ s.waiting ∨ (i, u) = (on, t) :=
    (List.mem_append.1 hu).imp_right List.mem_singleton.1
  refine h.moved hr hsame rfl ?_ (fun i u hu => ?_) fun i u hu => ?_
  · have hwaiters : (RunQueue.requeue { s with world := w' } t rest (.blocked on)).waiters =
        s.waiters ++ [t] := List.map_append
    rw [hwaiters, hr, ← List.append_assoc]
    exact List.perm_append_singleton t (rest ++ s.waiters)
  · rcases hwait i u hu with hu | hu
    · exact .inl hu
    · cases hu
      exact .inr ⟨rfl, hafter⟩
  · show _ ≤ rest.countP (fun u => (w'.tasks.get u).awaits g = some i)
    have := hpermits i
    by_cases hi : i = on
    · subst hi
      omega
    · have hu := (hwait i u hu).resolve_right fun heq => hi (congrArg Prod.fst heq)
      have hle := h.permits_le_rest hr hsame hu
      rw [if_neg fun ha => hi (hbefore i ha)] at hle
      omega

/-- The longest waiting task is woken for a permit that is returned; if nobody waits for it, it does
not matter that it is there. -/
theorem requeue_signalled (h : s.Orderly g) (hr : s.ready = t :: rest)
    (hsame : ∀ u, u ≠ t → w'.tasks.get u = s.world.tasks.get u) {on : ι}
    (hturn : World.Turned g s.world w' t (.signalled on)) :
    (RunQueue.requeue { s with world := w' } t rest (.signalled on)).Orderly g := by
  obtain ⟨hafter, hbefore, hpermits⟩ := hturn
  have hle (i : ι) (u : Int) (hu : (i, u) ∈ s.waiting) := by
    have hle := h.permits_le_rest hr hsame hu
    rw [hbefore, if_neg (by simp)] at hle
    exact hle
  rw [RunQueue.requeue]
  rcases takeWaiter_cases on s.waiting with ⟨hnone, hall⟩ | ⟨v, l, hsome, hperm⟩
  · rw [hnone]
    refine h.moved hr hsame rfl (.refl _) (fun i u hu => .inl hu) fun i u hu => ?_
    have := hpermits i
    rw [if_neg (hall i u hu)] at this
    have := hle i u hu
    rw [woken_eq (s := { s with world := w' }) hr]
    show _ ≤ rest.countP (fun u => (w'.tasks.get u).awaits g = some i) + _
    omega
  · rw [hsome]
    have hmem (i : ι) (u : Int) (hu : (i, u) ∈ l) : (i, u) ∈ s.waiting :=
      hperm.mem_iff.2 (List.mem_cons_of_mem _ hu)
    have hv : (on, v) ∈ s.waiting := hperm.mem_iff.2 List.mem_cons_self
    refine h.moved hr hsame rfl ?_ (fun i u hu => .inl (hmem i u hu)) fun i u hu => ?_
    · show (s.wake.line t v rest ++ l.map Prod.snd).Perm _
      refine ((perm_line s.wake t v rest).append_right _).trans ?_
      have hwaiters : s.waiters.Perm (v :: l.map Prod.snd) := hperm.map Prod.snd
      have hmiddle : (t :: rest ++ v :: l.map Prod.snd).Perm
          (v :: t :: rest ++ l.map Prod.snd) := List.perm_middle
      rw [hr]
      exact hmiddle.symm.trans (hwaiters.symm.append_left _)
    · have := hpermits i
      have := hle i u (hmem i u hu)
      have hawaits : (w'.tasks.get v).awaits g = some on := by
        rw [hsame v (h.ne_of_waiting hr hv)]
        exact h.awaits on v hv
      show _ ≤ List.countP (fun u => (w'.tasks.get u).awaits g = some i) (s.wake.line t v rest)
      rw [(perm_line s.wake t v rest).countP_eq, List.countP_cons, List.countP_cons, hawaits]
      simp only [decide_eq_true_eq, Option.some.injEq, eq_comm (a := on)]
      omega

/-- **A turn keeps order**: wherever the task goes, nobody is left waiting for what is there. -/
theorem requeue (h : s.Orderly g) (hr : s.ready = t :: rest)
    (hsame : ∀ u, u ≠ t → w'.tasks.get u = s.world.tasks.get u) {turn : Turn ι}
    (hturn : World.Turned g s.world w' t turn) :
    (RunQueue.requeue { s with world := w' } t rest turn).Orderly g := by
  cases turn with
  | idle => exact h.requeue_idle hr hturn
  | ran => exact h.requeue_ran hr hsame hturn
  | yielded => exact h.requeue_yielded hr hsame hturn
  | blocked on => exact h.requeue_blocked hr hsame hturn
  | signalled on => exact h.requeue_signalled hr hsame hturn

/-- A turn keeps order. -/
theorem tick (h : s.Orderly g) (hmind : s.world.Minding m g) : (s.tick m).Orderly g := by
  rcases hr : s.ready with - | ⟨t, rest⟩
  · rw [RunQueue.tick, hr]; exact h
  · rw [tick_of_ready m hr]
    exact h.requeue hr (fun u hu => World.advance_get_of_ne m s.world t hu) (hmind.turned t)

/-- A task that is free is not among the waiters. -/
theorem notMem_waiters (h : s.Orderly g) (hfree : s.world.tasks.get t = .free) :
    t ∉ s.waiters := by
  intro hmem
  obtain ⟨i, hi⟩ := exists_of_mem_waiters hmem
  have hawaits := h.awaits i t hi
  rw [hfree] at hawaits
  cases hawaits

/-- Order is kept if a task joins the line that was neither in it nor among the waiters. -/
theorem join (h : s.Orderly g) (hready : t ∉ s.ready) (hwaiting : t ∉ s.waiters)
    (hsame : ∀ u, u ≠ t → w'.tasks.get u = s.world.tasks.get u)
    (hshared : w'.shared = s.world.shared) :
    Orderly g { s with world := w', ready := s.ready ++ [t] } := by
  have hperm : (s.ready ++ [t] ++ s.waiters).Perm (t :: (s.ready ++ s.waiters)) :=
    (List.perm_append_singleton t s.ready).append_right _
  refine ⟨hperm.nodup_iff.2 (List.nodup_cons.2 ⟨?_, h.nodup⟩), fun u hu => hperm.mem_iff.2 ?_,
    fun i u hu => ?_, fun i u hu => ?_⟩
  · exact fun hmem => (List.mem_append.1 hmem).elim hready hwaiting
  · by_cases heq : u = t
    · exact heq ▸ List.mem_cons_self
    · rw [hsame u heq] at hu
      exact List.mem_cons_of_mem _ (h.listed u hu)
  · rw [hsame u fun heq => hwaiting (heq ▸ mem_waiters hu)]
    exact h.awaits i u hu
  · rw [hshared]
    refine Nat.le_trans (h.permits_le i u hu) ?_
    show _ ≤ List.countP _ (s.ready ++ [t])
    rw [List.countP_append]
    refine Nat.le_trans (Nat.le_of_eq ?_) (Nat.le_add_right _ _)
    refine List.countP_congr fun v hv => ?_
    rw [hsame v fun heq => hready (heq ▸ hv)]

/-- Work is handed out to tasks that have nothing to do, and these join the line. -/
theorem handOut (h : s.Orderly g)
    (hready : ∀ t ∈ s.ready, (s.world.tasks.get t).isUnfinished = true) (a : Assignment ω) :
    (s.handOut a).Orderly g ∧
      ∀ t ∈ (s.handOut a).ready, ((s.handOut a).world.tasks.get t).isUnfinished = true := by
  rw [RunQueue.handOut]
  split
  · exact ⟨⟨h.nodup, h.listed, h.awaits, h.permits_le⟩, hready⟩
  · next hfin =>
    split
    · exact ⟨h, hready⟩
    · next htodo =>
      have hfree := Task.eq_free (by simpa using hfin)
      have hset (u : Int) : (s.world.place a.task .idle a.todo).tasks.get u =
          if u = a.task then ⟨.idle, a.todo⟩ else s.world.tasks.get u := Roster.get_set _ _ _ _
      refine ⟨h.join (fun hmem => hfin (hready _ hmem)) (h.notMem_waiters hfree)
        (fun u hu => by rw [hset, if_neg hu]) rfl, fun u hu => ?_⟩
      simp only [hset]
      split
      · cases htodo' : a.todo with
        | nil => rw [htodo'] at htodo; exact absurd rfl htodo
        | cons => rfl
      · next heq =>
        rcases List.mem_append.1 hu with hu | hu
        · exact hready u hu
        · exact absurd (List.mem_singleton.1 hu) heq

end Orderly

/-! ## Rounds -/

/-- Order is kept while work is handed out. -/
theorem Orderly.foldl_handOut (h : s.Orderly g)
    (hready : ∀ t ∈ s.ready, (s.world.tasks.get t).isUnfinished = true)
    (work : List (Assignment ω)) : (work.foldl RunQueue.handOut s).Orderly g := by
  induction work generalizing s with
  | nil => exact h
  | cons a work ih =>
    obtain ⟨h, hready⟩ := h.handOut hready a
    exact ih h hready

/-- Order is kept by turn after turn, if the sections mind the supply on the way. -/
theorem Orderly.iterate (h : s.Orderly g) {n : Nat}
    (hmind : ∀ k < n, ((RunQueue.tick m)^[k] s).world.Minding m g) :
    ((RunQueue.tick m)^[n] s).Orderly g := by
  induction n with
  | zero => exact h
  | succ n ih =>
    rw [Function.iterate_succ_apply']
    exact (ih fun k hk => hmind k (Nat.lt_succ_of_lt hk)).tick (hmind n n.lt_succ_self)

/-- Where somebody waits, there are no more permits than tasks that were woken for one and have not
asked again. -/
def NobodyForgotten (g : Supply σ κ ι) (s : RunQueue σ ω κ ι ρ) : Prop :=
  ∀ i t, (i, t) ∈ s.waiting → g.permits s.world.shared i ≤ s.woken g i

/-- Nobody can run.  Who has not finished has a single place among all waiters, and waits there for
something of which there is nothing. -/
def Standstill (g : Supply σ κ ι) (s : RunQueue σ ω κ ι ρ) : Prop :=
  s.ready = [] ∧ ∀ t, (s.world.tasks.get t).isUnfinished = true →
    ∃ i, (i, t) ∈ s.waiting ∧ s.waiters.count t = 1 ∧ g.permits s.world.shared i = 0

theorem atRest_ofShared (wake : Wake) (shared : σ) :
    (ofShared wake shared : RunQueue σ ω κ ι ρ).AtRest g where
  orderly := by
    refine ⟨List.nodup_nil, fun t ht => ?_, fun i t hi => ?_, fun i t hi => ?_⟩
    · exact absurd ht Bool.false_ne_true
    · exact absurd hi List.not_mem_nil
    · exact absurd hi List.not_mem_nil
  ready_eq := rfl

namespace AtRest

variable {Q : World σ ω κ ρ → Prop}

/-- A round begins in order. -/
theorem orderly_given (h : s.AtRest g) (work : List (Assignment ω)) :
    (work.foldl RunQueue.handOut s).Orderly g :=
  h.orderly.foldl_handOut (by simp [h.ready_eq]) work

/-- There is order at every point of a round, if everything that can happen keeps the worlds such
that sections mind the supply. -/
theorem orderly_iterate (hQ : ∀ w x, Q w → Q (w.happen m x))
    (hmind : ∀ w, Q w → w.Minding m g) (h : s.AtRest g) (hs : Q s.world)
    (work : List (Assignment ω)) (n : Nat) :
    ((RunQueue.tick m)^[n] (work.foldl RunQueue.handOut s)).Orderly g ∧
      Q ((RunQueue.tick m)^[n] (work.foldl RunQueue.handOut s)).world := by
  have hgiven : Q (work.foldl RunQueue.handOut s).world :=
    world_foldl_handOut (fun a _ w hw => hQ w (.handOut a) hw) hs
  have hkept := world_iterate (m := m) (fun w t hw => hQ w (.advance t) hw) hgiven
  exact ⟨(h.orderly_given work).iterate fun k _ => hmind _ (hkept k), hkept n⟩

/-- **After a round there is order and nobody is in line**, if everything that can happen keeps the
worlds such that sections mind the supply and wind down. -/
theorem carryOut (hQ : ∀ w x, Q w → Q (w.happen m x))
    (hsound : ∀ w, Q w → w.tasks.Sorted ∧ w.Winding m ∧ w.Minding m g) (h : s.AtRest g)
    (hs : Q s.world) (work : List (Assignment ω)) :
    (s.carryOut m work).AtRest g ∧ Q (s.carryOut m work).world := by
  obtain ⟨horder, hkept⟩ := h.orderly_iterate hQ (fun w hw => (hsound w hw).2.2) hs work
    (potential m (work.foldl RunQueue.handOut s))
  rw [← run_eq_iterate] at horder hkept
  refine ⟨⟨horder, ?_⟩, hkept⟩
  refine ready_settle (P := fun s => Q s.world) (fun s hs => ?_)
    (fun s hs => ⟨(hsound _ hs).1, (hsound _ hs).2.1⟩)
    (world_foldl_handOut (fun a _ w hw => hQ w (.handOut a) hw) hs)
  exact world_iterate (m := m) (fun w t hw => hQ w (.advance t) hw) hs 1

/-- **Who has not finished waits for what is not there.** -/
theorem blocked (h : s.AtRest g) (ht : (s.world.tasks.get t).isUnfinished = true) :
    ∃ op k todo i, s.world.tasks.get t = ⟨.inside op k, todo⟩ ∧ g.awaits k = some i ∧
      (i, t) ∈ s.waiting ∧ g.permits s.world.shared i = 0 := by
  have hmem := h.orderly.listed t ht
  rw [h.ready_eq] at hmem
  obtain ⟨i, hi⟩ := exists_of_mem_waiters hmem
  have hawaits := h.orderly.awaits i t hi
  have hle := h.orderly.permits_le i t hi
  rw [woken, h.ready_eq] at hle
  rcases hx : s.world.tasks.get t with ⟨standing, todo⟩
  rw [hx] at hawaits
  cases standing with
  | inside op k => exact ⟨op, k, todo, i, rfl, hawaits, hi, Nat.le_zero.1 hle⟩
  | idle | paused => cases hawaits

theorem standstill (h : s.AtRest g) : s.Standstill g := by
  refine ⟨h.ready_eq, fun t ht => ?_⟩
  obtain ⟨-, -, -, i, -, -, hi, hzero⟩ := h.blocked ht
  have hnodup : s.waiters.Nodup := by
    have hnodup := h.orderly.nodup
    rwa [h.ready_eq, List.nil_append] at hnodup
  exact ⟨i, hi, List.count_eq_one_of_mem hnodup (mem_waiters hi), hzero⟩

end AtRest

end RunQueue

end BoundedQueue
