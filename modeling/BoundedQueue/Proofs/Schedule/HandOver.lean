import BoundedQueue.Proofs.Schedule.Waiting

/-!
# Woken at once

With `Wake.now` a task that is woken has its turn before anybody else, the task that woke it
included.  So nobody comes between it and the permit for which it was woken: it takes the permit,
and there is none again.  `RunQueue.Direct` is the invariant behind this.  At most the first in line
was woken for a permit and has not asked again, and then a permit is there.

Turns nest: the woken task may itself return a permit before the one that woke it goes on.  The
invariant does not speak of who woke whom, and so it need not be unwound.

What follows is told by the notes that are taken of the turns.  `RunQueue.InTurn` says that those
who blocked so far, in the order in which they did, are those who were served, in the order in which
they were, then the one whose turn to be served has come, then those who still wait.
-/

set_option autoImplicit false

namespace BoundedQueue

variable {σ ω κ ι ρ : Type}

/-! ## Sections that grant permits -/

/-- What a section that goes from `s` to `s'` owes to those who wait.  Before it, its task was
waiting for `awaited` or had been woken for it. -/
structure Supply.Grants (g : Supply σ κ ι) (awaited : Option ι) (s s' : σ) (move : Move κ ι ρ) :
    Prop where
  /-- Who is woken finds a permit. -/
  signal : ∀ on next, move = .signal on next → 0 < g.permits s' on
  /-- Who was woken and finds a permit takes this one. -/
  take : ∀ i, awaited = some i → 0 < g.permits s i → g.permits s' i + 1 = g.permits s i

namespace World

/-- Every section that can be carried out next grants what it owes. -/
structure Granting (m : Machine σ ω κ ι ρ) (g : Supply σ κ ι) (w : World σ ω κ ρ) : Prop where
  start : ∀ t op todo, w.tasks.get t = ⟨.idle, .perform op :: todo⟩ →
    g.Grants none w.shared (m.start (w.tasks.othersOutside t) op w.shared).1
      (m.start (w.tasks.othersOutside t) op w.shared).2
  resume : ∀ t op k todo, w.tasks.get t = ⟨.inside op k, todo⟩ →
    g.Grants (g.awaits k) w.shared (m.resume k w.shared).1 (m.resume k w.shared).2

variable {m : Machine σ ω κ ι ρ} {g : Supply σ κ ι} {w : World σ ω κ ρ} {t : Int} {op : ω}
  {todo : List (Instruction ω)} {on i : ι}

/-- A step that asks for a task to be woken is a section that does. -/
theorem signal_of_settleMove {r : σ × Move κ ι ρ}
    (h : (w.settleMove t op todo r).2 = .signalled on) : ∃ next, r.2 = .signal on next := by
  obtain ⟨shared, move⟩ := r
  cases move with
  | signal on' next =>
    simp only [settleMove, Turn.signalled.injEq] at h
    exact ⟨next, by rw [h]⟩
  | go | wait | finish => simp [settleMove] at h

/-- Who is woken finds a permit. -/
theorem Granting.permits_pos (h : w.Granting m g) (ht : (w.advance m t).2 = .signalled on) :
    0 < g.permits (w.advance m t).1.shared on := by
  rcases hx : w.tasks.get t with ⟨standing, todo⟩
  rcases standing with - | - | ⟨op, k⟩
  · rcases todo with - | ⟨op | _ | _, todo⟩
    · simp [advance_of_nil m hx] at ht
    · rw [advance_of_perform m hx] at ht ⊢
      obtain ⟨next, hnext⟩ := signal_of_settleMove ht
      rw [settleMove_shared]
      exact (h.start t op todo hx).signal on next hnext
    · simp [advance_of_yield m hx] at ht
    · simp [advance_of_unreadable m hx] at ht
  · simp [advance_of_paused m hx] at ht
  · rw [advance_of_inside m hx] at ht ⊢
    obtain ⟨next, hnext⟩ := signal_of_settleMove ht
    rw [settleMove_shared]
    exact (h.resume t op k todo hx).signal on next hnext

/-- Who was woken and finds a permit takes it. -/
theorem Granting.permits_succ (h : w.Granting m g) (ht : (w.tasks.get t).awaits g = some i)
    (hp : 0 < g.permits w.shared i) :
    g.permits (w.advance m t).1.shared i + 1 = g.permits w.shared i := by
  rcases hx : w.tasks.get t with ⟨standing, todo⟩
  rw [hx] at ht
  rcases standing with - | - | ⟨op, k⟩
  · simp [Task.awaits] at ht
  · simp [Task.awaits] at ht
  · rw [advance_of_inside m hx, settleMove_shared]
    exact (h.resume t op k todo hx).take i ht hp

end World

/-! ## Notes of turns -/

/-- What is noted of a turn: whose it was, what this task had been woken for, and what it did. -/
structure TurnNote (ι : Type) where
  task : Int
  wokenFor : Option ι
  turn : Turn ι

namespace TurnNote

variable [DecidableEq ι]

/-- Who blocked on `i`, in this order. -/
def blockers (i : ι) (notes : List (TurnNote ι)) : List Int :=
  (notes.filter fun n => n.turn = .blocked i).map task

/-- Who was woken for a permit at `i` and went on, in this order. -/
def served (i : ι) (notes : List (TurnNote ι)) : List Int :=
  (notes.filter fun n => n.wokenFor = some i ∧ n.turn = .ran).map task

theorem blockers_append (i : ι) (notes more : List (TurnNote ι)) :
    blockers i (notes ++ more) = blockers i notes ++ blockers i more := by
  simp [blockers]

theorem served_append (i : ι) (notes more : List (TurnNote ι)) :
    served i (notes ++ more) = served i notes ++ served i more := by
  simp [served]

end TurnNote

namespace RunQueue

section HandOut

variable {g : Supply σ κ ι} {s : RunQueue σ ω κ ι ρ}

/-- Work goes to tasks that were not woken for anything, and leaves those who wait alone. -/
theorem handOut_line (hready : ∀ u ∈ s.ready, (s.world.tasks.get u).awaits g = none)
    (a : Assignment ω) : (s.handOut a).wake = s.wake ∧ (s.handOut a).waiting = s.waiting ∧
      ∀ u ∈ (s.handOut a).ready, ((s.handOut a).world.tasks.get u).awaits g = none := by
  rw [handOut]
  split
  · exact ⟨rfl, rfl, hready⟩
  · split
    · exact ⟨rfl, rfl, hready⟩
    · refine ⟨rfl, rfl, fun u hu => ?_⟩
      show (((s.world.tasks.set a.task ⟨.idle, a.todo⟩).get u).awaits g) = none
      rw [Roster.get_set]
      split
      · rfl
      · next hne =>
        rcases List.mem_append.1 hu with hu | hu
        · exact hready u hu
        · exact absurd (List.mem_singleton.1 hu) hne

theorem foldl_handOut_line (hready : ∀ u ∈ s.ready, (s.world.tasks.get u).awaits g = none)
    (work : List (Assignment ω)) : (work.foldl handOut s).wake = s.wake ∧
      (work.foldl handOut s).waiting = s.waiting ∧
      ∀ u ∈ (work.foldl handOut s).ready,
        ((work.foldl handOut s).world.tasks.get u).awaits g = none := by
  induction work generalizing s with
  | nil => exact ⟨rfl, rfl, hready⟩
  | cons a work ih =>
    obtain ⟨hwake, hwaiting, hready⟩ := handOut_line hready a
    obtain ⟨hwake', hwaiting', hready'⟩ := ih hready
    exact ⟨hwake'.trans hwake, hwaiting'.trans hwaiting, hready'⟩

end HandOut

variable [DecidableEq ι]

/-- What is noted of the next turn. -/
def nextNote (m : Machine σ ω κ ι ρ) (g : Supply σ κ ι) (s : RunQueue σ ω κ ι ρ) :
    List (TurnNote ι) :=
  s.ready.head?.toList.map fun t =>
    ⟨t, (s.world.tasks.get t).awaits g, (s.world.advance m t).2⟩

/-- What is noted of the next `n` turns, in their order. -/
def notesOf (m : Machine σ ω κ ι ρ) (g : Supply σ κ ι) (s : RunQueue σ ω κ ι ρ) (n : Nat) :
    List (TurnNote ι) :=
  (List.range n).flatMap fun k => ((tick m)^[k] s).nextNote m g

/-- What is noted of the turns of rounds of work. -/
def notesOfRounds (m : Machine σ ω κ ι ρ) (g : Supply σ κ ι) (s : RunQueue σ ω κ ι ρ) :
    List (List (Assignment ω)) → List (TurnNote ι)
  | [] => []
  | work :: rounds =>
    let given := work.foldl handOut s
    given.notesOf m g (given.potential m) ++ notesOfRounds m g (s.carryOut m work) rounds

/-- The tasks that wait on `i`, longest waiting first. -/
def waitersOn (s : RunQueue σ ω κ ι ρ) (i : ι) : List Int :=
  (s.waiting.filter fun e => e.1 = i).map Prod.snd

/-- The task to which a permit at `i` is being handed over: the first in line, if it was woken for
one. -/
def receiver (g : Supply σ κ ι) (s : RunQueue σ ω κ ι ρ) (i : ι) : List Int :=
  s.ready.head?.toList.filter fun t => (s.world.tasks.get t).awaits g = some i

/-- Who blocked on `i` was served, is the receiver of the next permit, or still waits, and this in
the order in which they blocked. -/
def InTurn (g : Supply σ κ ι) (i : ι) (notes : List (TurnNote ι)) (s : RunQueue σ ω κ ι ρ) : Prop :=
  TurnNote.blockers i notes = TurnNote.served i notes ++ s.receiver g i ++ s.waitersOn i

/-- Permits are handed over from who returns them to who waits for them. -/
structure HandsOver (m : Machine σ ω κ ι ρ) (g : Supply σ κ ι) (s : RunQueue σ ω κ ι ρ) : Prop where
  /-- Unless a permit is being handed over, there is none where somebody waits for one. -/
  permits_eq_zero : ∀ i t, (i, t) ∈ s.waiting → s.receiver g i = [] →
    g.permits s.world.shared i = 0
  /-- A task in line that was woken for a permit is the first, takes the permit with its next turn
  and goes on from there. -/
  received : ∀ i, ∀ t ∈ s.ready, (s.world.tasks.get t).awaits g = some i →
    s.ready.head? = some t ∧ 0 < g.permits s.world.shared i ∧ (s.world.advance m t).2 = .ran ∧
      g.permits (s.world.advance m t).1.shared i + 1 = g.permits s.world.shared i ∧
      ((s.world.advance m t).1.tasks.get t).awaits g = none

/-- There is order, and of the tasks in line at most the first was woken for a permit, which is
there. -/
structure Direct (g : Supply σ κ ι) (s : RunQueue σ ω κ ι ρ) : Prop where
  orderly : s.Orderly g
  wake : s.wake = .now
  tail : ∀ t ∈ s.ready.tail, (s.world.tasks.get t).awaits g = none
  head : ∀ t ∈ s.ready.head?, ∀ i, (s.world.tasks.get t).awaits g = some i →
    0 < g.permits s.world.shared i

variable {m : Machine σ ω κ ι ρ} {g : Supply σ κ ι} {s : RunQueue σ ω κ ι ρ} {t : Int}
  {rest : List Int} {i : ι} {notes : List (TurnNote ι)}

/-- The waiter that is taken out is the one who has waited on the same thing for longest. -/
theorem filter_takeWaiter {on : ι} {u : Int} {l l' : List (ι × Int)}
    (h : takeWaiter on l = some (u, l')) (i : ι) :
    (l.filter fun e => e.1 = i).map Prod.snd =
      (if on = i then [u] else []) ++ (l'.filter fun e => e.1 = i).map Prod.snd := by
  induction l generalizing l' with
  | nil => simp [takeWaiter] at h
  | cons e l ih =>
    obtain ⟨j, v⟩ := e
    rw [takeWaiter] at h
    split at h
    · next heq =>
      obtain ⟨rfl, rfl⟩ : v = u ∧ l = l' := by simpa using h
      by_cases hi : on = i
      · simp [heq, hi]
      · simp [heq, hi]
    · next hne =>
      obtain ⟨l'', hsome, rfl⟩ : ∃ l'', takeWaiter on l = some (u, l'') ∧ (j, v) :: l'' = l' := by
        simpa using h
      have ih := ih hsome
      by_cases hj : j = i
      · have hi : on ≠ i := fun hi => hne (hj.trans hi.symm)
        simp only [if_neg hi, List.nil_append] at ih ⊢
        simp [hj, ih]
      · simpa [hj] using ih

theorem receiver_of_awaits_none (h : ∀ t ∈ s.ready.head?, (s.world.tasks.get t).awaits g = none)
    (i : ι) : s.receiver g i = [] := by
  rw [receiver, List.filter_eq_nil_iff]
  intro t ht
  simp [h t (by simpa using ht)]

namespace Direct

/-- Nobody else in line waits for a permit or was woken for one. -/
theorem awaits_of_mem (h : s.Direct g) (hr : s.ready = t :: rest) {u : Int} (hu : u ∈ rest) :
    (s.world.tasks.get u).awaits g = none :=
  h.tail u (by rw [hr]; exact hu)

/-- As many tasks were woken for a permit as are being handed one. -/
theorem woken_eq (h : s.Direct g) (i : ι) : s.woken g i = (s.receiver g i).length := by
  rcases hr : s.ready with - | ⟨t, rest⟩
  · simp [woken, receiver, hr]
  · have hrest : rest.countP (fun u => (s.world.tasks.get u).awaits g = some i) = 0 := by
      rw [List.countP_eq_zero]
      intro u hu
      simp [h.awaits_of_mem hr hu]
    rw [Orderly.woken_eq hr, hrest, receiver, hr]
    by_cases ht : (s.world.tasks.get t).awaits g = some i
    · simp [ht]
    · simp [ht]

/-- **Permits are handed over.** -/
theorem handsOver (h : s.Direct g) (hmind : s.world.Minding m g)
    (hgrant : s.world.Granting m g) : s.HandsOver m g where
  permits_eq_zero i t ht hreceiver := by
    have hle := h.orderly.permits_le i t ht
    rw [h.woken_eq, hreceiver] at hle
    exact Nat.le_zero.1 hle
  received i t ht hawaits := by
    rcases hr : s.ready with - | ⟨v, rest⟩
    · simp [hr] at ht
    rw [hr, List.mem_cons] at ht
    obtain rfl : t = v := by
      refine ht.resolve_right fun hrest => ?_
      rw [h.awaits_of_mem hr hrest] at hawaits
      cases hawaits
    have hp := h.head t (by simp [hr]) i hawaits
    have hturn := hmind.turned t
    have hran : (s.world.advance m t).2 = .ran := by
      cases hx : (s.world.advance m t).2 with
      | ran => rfl
      | idle =>
        rw [hx] at hturn
        rw [Task.eq_free hturn.2] at hawaits
        cases hawaits
      | yielded =>
        rw [hx] at hturn
        rw [hturn.2.1] at hawaits
        cases hawaits
      | blocked on =>
        rw [hx] at hturn
        obtain rfl := hturn.2.2.1 i hawaits
        exact absurd hturn.2.1 hp.ne'
      | signalled on =>
        rw [hx] at hturn
        rw [hturn.2.1] at hawaits
        cases hawaits
    rw [hran] at hturn
    exact ⟨rfl, hp, hran, hgrant.permits_succ hawaits hp, hturn.1⟩

end Direct

/-! ## Turns -/

/-- What the next turn, that of `t`, comes to. -/
inductive Handling (m : Machine σ ω κ ι ρ) (g : Supply σ κ ι) (s : RunQueue σ ω κ ι ρ) (t : Int) :
    Prop where
  /-- The task takes the permit for which it was woken, if it was, and nobody is woken. -/
  | goesOn (hturn : ∀ i, (s.world.advance m t).2 ≠ .blocked i)
      (hran : ∀ i, (s.world.tasks.get t).awaits g = some i → (s.world.advance m t).2 = .ran)
      (hready : ∀ u ∈ (s.tick m).ready, ((s.tick m).world.tasks.get u).awaits g = none)
      (hwaiting : (s.tick m).waiting = s.waiting)
  /-- The task joins the waiters. -/
  | blocks (on : ι) (hturn : (s.world.advance m t).2 = .blocked on)
      (hbefore : (s.world.tasks.get t).awaits g = none)
      (hready : ∀ u ∈ (s.tick m).ready, ((s.tick m).world.tasks.get u).awaits g = none)
      (hwaiting : (s.tick m).waiting = s.waiting ++ [(on, t)])
  /-- The task returns a permit, and `u`, who waits for one, comes before all others. -/
  | wakes (on : ι) (u : Int) (others : List Int) (hturn : (s.world.advance m t).2 = .signalled on)
      (hbefore : (s.world.tasks.get t).awaits g = none)
      (hready : (s.tick m).ready = u :: others)
      (hothers : ∀ v ∈ others, ((s.tick m).world.tasks.get v).awaits g = none)
      (hu : ((s.tick m).world.tasks.get u).awaits g = some on)
      (hp : 0 < g.permits (s.tick m).world.shared on)
      (hwaiting : takeWaiter on s.waiting = some (u, (s.tick m).waiting))

theorem wake_tick (m : Machine σ ω κ ι ρ) (s : RunQueue σ ω κ ι ρ) :
    (s.tick m).wake = s.wake := by
  rcases hr : s.ready with - | ⟨t, rest⟩
  · rw [tick_of_nil m hr]
  · rw [tick_of_ready m hr]
    unfold requeue
    split
    · rfl
    · rfl
    · rfl
    · rfl
    · split <;> rfl

namespace Direct

/-- **A turn takes the permit that is handed over, joins the waiters where there is none, or hands
over a permit.** -/
theorem handling (h : s.Direct g) (hmind : s.world.Minding m g) (hgrant : s.world.Granting m g)
    (hr : s.ready = t :: rest) : Handling m g s t := by
  have hworld : (s.tick m).world = (s.world.advance m t).1 := by
    rw [tick_of_ready m hr, world_requeue]
  have hsame (u : Int) (hu : u ≠ t) :
      (s.world.advance m t).1.tasks.get u = s.world.tasks.get u :=
    World.advance_get_of_ne m s.world t hu
  have hrest (u : Int) (hu : u ∈ rest) :
      ((s.world.advance m t).1.tasks.get u).awaits g = none := by
    rw [hsame u fun heq => (h.orderly.notMem_rest hr).1 (heq ▸ hu)]
    exact h.awaits_of_mem hr hu
  have hline (ht : ((s.world.advance m t).1.tasks.get t).awaits g = none) (u : Int)
      (hu : u = t ∨ u ∈ rest) : ((s.world.advance m t).1.tasks.get u).awaits g = none :=
    hu.elim (fun heq => by rw [heq, ht]) (hrest u)
  have hturned := hmind.turned t
  cases hturn : (s.world.advance m t).2 with
  | idle =>
    rw [hturn] at hturned
    have hready : (s.tick m).ready = rest := by rw [tick_of_ready m hr, hturn, requeue]
    refine .goesOn (by simp [hturn]) (fun i hi => ?_) (fun u hu => ?_) ?_
    · rw [Task.eq_free hturned.2] at hi
      cases hi
    · rw [hworld]
      exact hrest u (hready ▸ hu)
    · rw [tick_of_ready m hr, hturn, requeue]
  | ran =>
    rw [hturn] at hturned
    have hready : (s.tick m).ready = t :: rest := by rw [tick_of_ready m hr, hturn, requeue, hr]
    refine .goesOn (by simp [hturn]) (fun _ _ => hturn) (fun u hu => ?_) ?_
    · rw [hworld]
      rw [hready, List.mem_cons] at hu
      exact hline hturned.1 u hu
    · rw [tick_of_ready m hr, hturn, requeue]
  | yielded =>
    rw [hturn] at hturned
    have hready : (s.tick m).ready = rest ++ [t] := by rw [tick_of_ready m hr, hturn, requeue]
    refine .goesOn (by simp [hturn]) (fun i hi => ?_) (fun u hu => ?_) ?_
    · rw [hturned.2.1] at hi
      cases hi
    · rw [hworld]
      rw [hready, List.mem_append, List.mem_singleton] at hu
      exact hline hturned.2.2 u hu.symm
    · rw [tick_of_ready m hr, hturn, requeue]
  | blocked on =>
    rw [hturn] at hturned
    have hready : (s.tick m).ready = rest := by rw [tick_of_ready m hr, hturn, requeue]
    refine .blocks on hturn ?_ (fun u hu => ?_) ?_
    · rcases hi : (s.world.tasks.get t).awaits g with - | i
      · rfl
      -- a task that was woken finds a permit, and does not block
      · have hp := h.head t (by simp [hr]) i hi
        obtain rfl := hturned.2.2.1 i hi
        exact absurd hturned.2.1 hp.ne'
    · rw [hworld]
      exact hrest u (hready ▸ hu)
    · rw [tick_of_ready m hr, hturn, requeue]
  | signalled on =>
    rw [hturn] at hturned
    obtain ⟨hafter, hbefore, -⟩ := hturned
    have htick : s.tick m = { s with world := (s.world.advance m t).1 : RunQueue σ ω κ ι ρ }.requeue
        t rest (.signalled on) := by rw [tick_of_ready m hr, hturn]
    rw [requeue] at htick
    rcases takeWaiter_cases on s.waiting with ⟨hnone, -⟩ | ⟨u, l, hsome, hperm⟩
    · simp only [hnone] at htick
      refine .goesOn (by simp [hturn]) (fun i hi => ?_) (fun u hu => ?_) (by rw [htick])
      · rw [hbefore] at hi
        cases hi
      · rw [hworld]
        rw [htick, hr, List.mem_cons] at hu
        exact hline hafter u hu
    · simp only [hsome, h.wake, Wake.line] at htick
      have hu : (on, u) ∈ s.waiting := hperm.mem_iff.2 List.mem_cons_self
      refine .wakes on u (t :: rest) hturn hbefore (by rw [htick]) (fun v hv => ?_) ?_ ?_
        (by rw [htick, hsome])
      · rw [hworld]
        exact hline hafter v (List.mem_cons.1 hv)
      · rw [hworld, hsame u (h.orderly.ne_of_waiting hr hu)]
        exact h.orderly.awaits on u hu
      · rw [hworld]
        exact hgrant.permits_pos hturn

/-- The invariant holds where nobody in line was woken for anything. -/
theorem of_awaits_none (horder : s.Orderly g) (hwake : s.wake = .now)
    (hready : ∀ u ∈ s.ready, (s.world.tasks.get u).awaits g = none) : s.Direct g where
  orderly := horder
  wake := hwake
  tail u hu := hready u (List.mem_of_mem_tail hu)
  head u hu i hi := by
    rw [hready u (List.mem_of_mem_head? hu)] at hi
    cases hi

/-- A turn keeps the invariant. -/
theorem tick (h : s.Direct g) (hmind : s.world.Minding m g) (hgrant : s.world.Granting m g) :
    (s.tick m).Direct g := by
  rcases hr : s.ready with - | ⟨t, rest⟩
  · rw [tick_of_nil m hr]
    exact h
  have horder := h.orderly.tick hmind
  have hwake := (wake_tick m s).trans h.wake
  cases h.handling hmind hgrant hr with
  | goesOn _ _ hready => exact of_awaits_none horder hwake hready
  | blocks _ _ _ hready => exact of_awaits_none horder hwake hready
  | wakes on u others _ _ hready hothers hu hp =>
    refine ⟨horder, hwake, fun v hv => ?_, fun v hv i hi => ?_⟩
    · rw [hready] at hv
      exact hothers v hv
    · simp only [hready, List.head?_cons, Option.mem_def, Option.some.injEq] at hv
      rw [← hv, hu] at hi
      cases hi
      exact hp

/-- **A turn keeps those who wait in turn.** -/
theorem inTurn_tick (h : s.Direct g) (hmind : s.world.Minding m g) (hgrant : s.world.Granting m g)
    (hs : s.InTurn g i notes) : (s.tick m).InTurn g i (notes ++ s.nextNote m g) := by
  rcases hr : s.ready with - | ⟨t, rest⟩
  · simpa [tick_of_nil m hr, nextNote, hr] using hs
  have hnote : s.nextNote m g =
      [⟨t, (s.world.tasks.get t).awaits g, (s.world.advance m t).2⟩] := by simp [nextNote, hr]
  rw [InTurn] at hs ⊢
  rw [hnote, TurnNote.blockers_append, TurnNote.served_append, hs]
  cases h.handling hmind hgrant hr with
  | goesOn hturn hran hready hwaiting =>
    rw [receiver_of_awaits_none fun u hu => hready u (List.mem_of_mem_head? hu)]
    by_cases ht : (s.world.tasks.get t).awaits g = some i
    · simp [TurnNote.blockers, TurnNote.served, receiver, waitersOn, hr, ht, hran i ht, hwaiting]
    · simp [TurnNote.blockers, TurnNote.served, receiver, waitersOn, hr, ht, hturn i, hwaiting]
  | blocks on hturn hbefore hready hwaiting =>
    rw [receiver_of_awaits_none fun u hu => hready u (List.mem_of_mem_head? hu)]
    by_cases hi : on = i
    · simp [TurnNote.blockers, TurnNote.served, receiver, waitersOn, hr, hturn, hbefore, hi,
        hwaiting]
    · simp [TurnNote.blockers, TurnNote.served, receiver, waitersOn, hr, hturn, hbefore, hi,
        hwaiting]
  | wakes on u others hturn hbefore hready hothers hu hp hwaiting =>
    have hfirst : s.waitersOn i = (if on = i then [u] else []) ++ (s.tick m).waitersOn i :=
      filter_takeWaiter hwaiting i
    have hreceiver : (s.tick m).receiver g i = if on = i then [u] else [] := by
      by_cases hi : on = i
      · simp [receiver, hready, hu, hi]
      · simp [receiver, hready, hu, hi]
    rw [hreceiver, hfirst]
    simp [TurnNote.blockers, TurnNote.served, receiver, hr, hturn, hbefore]

end Direct

/-! ## Rounds -/

/-- A round begins without anybody being handed a permit. -/
theorem Direct.foldl_handOut (h : s.Direct g) (hr : s.ready = []) (work : List (Assignment ω)) :
    (work.foldl handOut s).Direct g := by
  obtain ⟨hwake, -, hready⟩ := foldl_handOut_line (s := s) (g := g) (by simp [hr]) work
  exact .of_awaits_none (h.orderly.foldl_handOut (by simp [hr]) work) (hwake.trans h.wake) hready

theorem InTurn.foldl_handOut (h : s.InTurn g i notes) (hr : s.ready = [])
    (work : List (Assignment ω)) : (work.foldl handOut s).InTurn g i notes := by
  obtain ⟨-, hwaiting, hready⟩ := foldl_handOut_line (s := s) (g := g) (by simp [hr]) work
  rw [InTurn, receiver_of_awaits_none fun u hu => hready u (List.mem_of_mem_head? hu), waitersOn,
    hwaiting]
  simpa [InTurn, receiver, hr, waitersOn] using h

/-- What holds while permits are handed over, and is kept by every turn. -/
structure Keeps (m : Machine σ ω κ ι ρ) (g : Supply σ κ ι) (P : RunQueue σ ω κ ι ρ → Prop) :
    Prop where
  tick : ∀ s, P s → P (s.tick m)
  direct : ∀ s, P s → s.Direct g
  minding : ∀ s, P s → s.world.Minding m g
  granting : ∀ s, P s → s.world.Granting m g

namespace Keeps

variable {P : RunQueue σ ω κ ι ρ → Prop}

theorem iterate (hP : Keeps m g P) (hs : P s) (n : Nat) : P ((RunQueue.tick m)^[n] s) := by
  induction n with
  | zero => exact hs
  | succ n ih =>
    rw [Function.iterate_succ_apply']
    exact hP.tick _ ih

/-- Who waits is in turn, turn after turn. -/
theorem inTurn_iterate (hP : Keeps m g P) (hs : P s) (h : s.InTurn g i notes) (n : Nat) :
    ((RunQueue.tick m)^[n] s).InTurn g i (notes ++ s.notesOf m g n) := by
  induction n with
  | zero => simpa [notesOf] using h
  | succ n ih =>
    have hn := hP.iterate hs n
    have hstep := (hP.direct _ hn).inTurn_tick (hP.minding _ hn) (hP.granting _ hn) ih
    rw [Function.iterate_succ_apply']
    simpa [notesOf, List.range_succ] using hstep

/-- **Who waits is in turn, round after round.** -/
theorem inTurn_rounds (hP : Keeps m g P) (rounds : List (List (Assignment ω)))
    (hround : ∀ work ∈ rounds, ∀ s, P s → s.ready = [] →
      P (work.foldl handOut s) ∧ (s.carryOut m work).ready = [])
    (hs : P s) (hr : s.ready = []) (h : ∀ i, s.InTurn g i notes) :
    P (rounds.foldl (carryOut m) s) ∧ (rounds.foldl (carryOut m) s).ready = [] ∧
      ∀ i, (rounds.foldl (carryOut m) s).InTurn g i (notes ++ s.notesOfRounds m g rounds) := by
  induction rounds generalizing s notes with
  | nil => exact ⟨hs, hr, by simpa [notesOfRounds] using h⟩
  | cons work rounds ih =>
    obtain ⟨hgiven, hend⟩ := hround work List.mem_cons_self s hs hr
    have hsettle : s.carryOut m work =
        (RunQueue.tick m)^[potential m (work.foldl handOut s)] (work.foldl handOut s) :=
      run_eq_iterate m _ _
    have hturn (i : ι) := hP.inTurn_iterate hgiven ((h i).foldl_handOut hr work)
      (potential m (work.foldl handOut s))
    have hkept := hP.iterate hgiven (potential m (work.foldl handOut s))
    rw [← hsettle] at hkept
    simp only [← hsettle] at hturn
    have hrest := ih (fun work hwork => hround work (List.mem_cons_of_mem _ hwork)) hkept hend
      hturn
    rwa [List.append_assoc] at hrest

/-- **At every point of a round permits are handed over, and who waits is in turn**, if nobody
waited when the first round began. -/
theorem at_point (hP : Keeps m g P) {rounds : List (List (Assignment ω))}
    (hround : ∀ work ∈ rounds, ∀ s, P s → s.ready = [] →
      P (work.foldl handOut s) ∧ (s.carryOut m work).ready = [])
    (hs : P s) (hr : s.ready = []) (hw : s.waiting = []) {n : Nat} {work : List (Assignment ω)}
    (hwork : rounds[n]? = some work) (k : Nat) :
    let given := work.foldl handOut ((rounds.take n).foldl (carryOut m) s)
    ((RunQueue.tick m)^[k] given).HandsOver m g ∧
      ∀ i, ((RunQueue.tick m)^[k] given).InTurn g i
        (s.notesOfRounds m g (rounds.take n) ++ given.notesOf m g k) := by
  intro given
  have hbegin (i : ι) : s.InTurn g i [] := by
    simp [InTurn, TurnNote.blockers, TurnNote.served, receiver, waitersOn, hr, hw]
  obtain ⟨hrest, hready, hturn⟩ := hP.inTurn_rounds (rounds.take n)
    (fun work hwork => hround work (List.mem_of_mem_take hwork)) hs hr hbegin
  have hgiven : P given := (hround work (List.mem_of_getElem? hwork) _ hrest hready).1
  have hnow := hP.iterate hgiven k
  exact ⟨(hP.direct _ hnow).handsOver (hP.minding _ hnow) (hP.granting _ hnow),
    fun i => hP.inTurn_iterate hgiven ((hturn i).foldl_handOut hready work) k⟩

end Keeps

end RunQueue

end BoundedQueue
