import BoundedQueue.Proofs.Schedule.Run
import Mathlib.Data.Nat.Find

/-!
# Every round comes to an end

`World.work` adds up what the tasks of a world have left to do, and what the shared state may add to
it.  In a `Winding` world no section leaves more work behind than it found, and one that wakes a
task pays for its turn.  So every turn of the run queue lowers `RunQueue.potential`, whether the
task goes on, yields, is through, or leaves the line to wait (`RunQueue.potential_tick_lt`).

* `RunQueue.ready_settle` says that `RunQueue.settle`, which allows as many turns, does not stop
  before nobody can run.
* The bound on the number of turns makes no difference: `RunQueue.run_eq_iterate` does without, and
  `RunQueue.world_iterate` says that what every step keeps holds after any number of turns.
* `RunQueue.Ends` says that turn after turn leads to where the round settles, and to no such point
  before.
-/

set_option autoImplicit false

namespace BoundedQueue

variable {σ ω κ ι ρ : Type}

/-- The work that a move leaves to its task, and the turns for which it is to pay: its own, and that
of a task which it wakes. -/
def Machine.cost (m : Machine σ ω κ ι ρ) : Move κ ι ρ → Nat
  | .go next => m.effort next + 1
  | .wait _ retry => m.effort retry
  | .signal _ next => m.effort next + 2
  | .finish _ => 1

/-- What a turn has to take from the work in order to shorten the rest of the round.  One after
which the task leaves the line takes nothing. -/
def Turn.cost : Turn ι → Nat
  | .idle | .blocked _ => 0
  | .ran | .yielded => 1
  | .signalled _ => 2

namespace World

/-- The work that is left in a world. -/
def work (m : Machine σ ω κ ι ρ) (w : World σ ω κ ρ) : Nat :=
  m.stock w.shared + w.tasks.total (RunQueue.taskEffort m)

/-- No section that can be carried out next leaves more work behind than it finds. -/
structure Winding (m : Machine σ ω κ ι ρ) (w : World σ ω κ ρ) : Prop where
  start : ∀ alone op, m.stock (m.start alone op w.shared).1 + m.cost (m.start alone op w.shared).2 ≤
    m.stock w.shared + m.demand op
  resume : ∀ t op k todo, w.tasks.get t = ⟨.inside op k, todo⟩ →
    m.stock (m.resume k w.shared).1 + m.cost (m.resume k w.shared).2 ≤
      m.stock w.shared + m.effort k

variable {m : Machine σ ω κ ι ρ} {w : World σ ω κ ρ} {t : Int} {op : ω}
  {todo : List (Instruction ω)}

/-- The work of a world is that of one task and of everything else. -/
theorem work_eq (h : w.tasks.Sorted) (m : Machine σ ω κ ι ρ) (t : Int) :
    w.work m = m.stock w.shared + RunQueue.taskEffort m (w.tasks.get t) +
      (w.tasks.others t).total (RunQueue.taskEffort m) := by
  rw [work, Roster.total_eq h rfl t, Nat.add_assoc]

theorem work_set (h : w.tasks.Sorted) (m : Machine σ ω κ ι ρ) (t : Int) (shared : σ)
    (x : Task ω κ) (events : List (Event ω ρ)) :
    (⟨shared, w.tasks.set t x, events⟩ : World σ ω κ ρ).work m =
      m.stock shared + RunQueue.taskEffort m x +
        (w.tasks.others t).total (RunQueue.taskEffort m) := by
  rw [work, Roster.total_set h rfl t, Nat.add_assoc]

theorem work_settleMove (h : w.tasks.Sorted) {n : Nat} {r : σ × Move κ ι ρ}
    (htask : RunQueue.taskEffort m (w.tasks.get t) =
      n + (todo.map (RunQueue.instructionEffort m)).foldr (· + ·) 0)
    (hr : m.stock r.1 + m.cost r.2 ≤ m.stock w.shared + n) :
    (w.settleMove t op todo r).1.work m + (w.settleMove t op todo r).2.cost ≤ w.work m := by
  obtain ⟨shared, move⟩ := r
  rw [w.work_eq h m t, htask]
  cases move with
  | go next | wait on next | signal on next =>
    simp only [settleMove, place, work_set h, RunQueue.taskEffort, Turn.cost, Machine.cost] at hr ⊢
    omega
  | finish result =>
    simp only [settleMove, place, report, work_set h, RunQueue.taskEffort, Turn.cost,
      Machine.cost] at hr ⊢
    omega

/-- **A step takes from the work what its turn costs.** -/
theorem Winding.work_advance (h : w.Winding m) (hw : w.tasks.Sorted) (t : Int) :
    (w.advance m t).1.work m + (w.advance m t).2.cost ≤ w.work m := by
  rcases hx : w.tasks.get t with ⟨standing, todo⟩
  cases standing with
  | inside op k =>
    rw [advance_of_inside m hx]
    exact work_settleMove hw (by rw [hx]; rfl) (h.resume t op k todo hx)
  | paused =>
    rw [advance_of_paused m hx, w.work_eq hw m t, hx]
    simp only [place, report, work_set hw, RunQueue.taskEffort, Turn.cost]
    omega
  | idle =>
    cases todo with
    | nil => rw [advance_of_nil m hx]; exact Nat.le_refl _
    | cons i todo =>
      cases i with
      | perform op =>
        rw [advance_of_perform m hx]
        refine work_settleMove hw ?_ (h.start _ op)
        rw [hx, RunQueue.taskEffort, Nat.zero_add]
        rfl
      | yield =>
        rw [advance_of_yield m hx, w.work_eq hw m t, hx]
        simp only [place, work_set hw, RunQueue.taskEffort, RunQueue.instructionEffort, Turn.cost,
          List.map_cons, List.foldr_cons]
        omega
      | unreadable name fault =>
        rw [advance_of_unreadable m hx, w.work_eq hw m t, hx]
        simp only [place, report, work_set hw, RunQueue.taskEffort, RunQueue.instructionEffort,
          Turn.cost, List.map_cons, List.foldr_cons]
        omega

end World

namespace RunQueue

variable [DecidableEq ι] {m : Machine σ ω κ ι ρ} {s : RunQueue σ ω κ ι ρ} {t : Int}
  {rest : List Int}

theorem tick_of_ready (m : Machine σ ω κ ι ρ) (h : s.ready = t :: rest) :
    s.tick m = { s with world := (s.world.advance m t).1 : RunQueue σ ω κ ι ρ }.requeue t rest
      (s.world.advance m t).2 := by
  rw [tick, h]

/-- A line becomes shorter, or by no more longer than the turn pays for. -/
theorem length_ready_requeue (h : s.ready = t :: rest) (turn : Turn ι) :
    (s.requeue t rest turn).ready.length < s.ready.length + turn.cost := by
  cases turn with
  | idle | blocked => simp [requeue, h, Turn.cost]
  | ran => simp [requeue, Turn.cost]
  | yielded => simp [requeue, h, Turn.cost]
  | signalled on =>
    rw [requeue]
    split
    · simp [Turn.cost]
    · rw [h]
      cases s.wake <;> simp [Wake.line, Turn.cost]

/-- **Every turn lowers the potential.** -/
theorem potential_tick_lt (hw : s.world.tasks.Sorted) (hwind : s.world.Winding m)
    (h : s.ready ≠ []) : (s.tick m).potential m < s.potential m := by
  obtain ⟨t, rest, hready⟩ := List.exists_cons_of_ne_nil h
  have hwork := hwind.work_advance hw t
  rw [tick_of_ready m hready]
  generalize s.world.advance m t = step at hwork
  have hlen := length_ready_requeue (s := { s with world := step.1 }) hready step.2
  have hpotential (s : RunQueue σ ω κ ι ρ) : s.potential m = s.world.work m + s.ready.length := rfl
  rw [hpotential, hpotential, world_requeue]
  simp only at hlen ⊢
  omega

theorem run_of_ready (h : s.ready = []) (n : Nat) : s.run m n = s := by
  cases n with
  | zero => rfl
  | succ n => rw [run, h, List.isEmpty_nil, if_pos rfl]

theorem run_of_ready_ne (h : s.ready ≠ []) (n : Nat) : s.run m (n + 1) = (s.tick m).run m n := by
  rw [run, if_neg (by simpa using h)]

/-- Once nobody can run, it does not matter how many more turns are allowed. -/
theorem run_eq_of_ready {n k : Nat} (hn : (s.run m n).ready = []) (hk : (s.run m k).ready = []) :
    s.run m n = s.run m k := by
  induction n generalizing s k with
  | zero => exact (run_of_ready hn k).symm
  | succ n ih =>
    by_cases h : s.ready = []
    · rw [run_of_ready h, run_of_ready h]
    · cases k with
      | zero => exact absurd hk h
      | succ k =>
        rw [run_of_ready_ne h] at hn ⊢
        rw [run_of_ready_ne h] at hk ⊢
        exact ih hn hk

/-- Where nobody can run, a turn changes nothing. -/
theorem tick_of_nil (m : Machine σ ω κ ι ρ) (h : s.ready = []) : s.tick m = s := by
  rw [tick, h]

/-- Turns that are allowed and not taken make no difference. -/
theorem run_eq_iterate (m : Machine σ ω κ ι ρ) (s : RunQueue σ ω κ ι ρ) (n : Nat) :
    s.run m n = (tick m)^[n] s := by
  induction n generalizing s with
  | zero => rfl
  | succ n ih =>
    rw [Function.iterate_succ_apply]
    by_cases h : s.ready = []
    · rw [tick_of_nil m h, ← ih, run_of_ready h, run_of_ready h]
    · rw [run_of_ready_ne h, ih]

/-- What every step keeps holds after any number of turns. -/
theorem world_iterate {Q : World σ ω κ ρ → Prop} (hQ : ∀ w t, Q w → Q (w.advance m t).1)
    (hs : Q s.world) (n : Nat) : Q ((tick m)^[n] s).world := by
  induction n with
  | zero => exact hs
  | succ n ih =>
    rw [Function.iterate_succ_apply']
    rcases world_tick m ((tick m)^[n] s) with ht | ⟨t, ht⟩
    · rw [ht]; exact ih
    · rw [ht]; exact hQ _ t ih

variable {P : RunQueue σ ω κ ι ρ → Prop}

theorem ready_run (hP : ∀ s, P s → P (s.tick m))
    (hwind : ∀ s, P s → s.world.tasks.Sorted ∧ s.world.Winding m) (h : P s) {n : Nat}
    (hn : s.potential m ≤ n) : (s.run m n).ready = [] := by
  induction n generalizing s with
  | zero =>
    rw [potential] at hn
    exact List.eq_nil_of_length_eq_zero (by rw [run]; omega)
  | succ n ih =>
    rw [run]
    split
    · next hnil => exact List.isEmpty_iff.1 hnil
    · next hne =>
      obtain ⟨hw, hwinding⟩ := hwind s h
      have hlt := potential_tick_lt hw hwinding (by simpa using hne)
      exact ih (hP s h) (by omega)

/-- **A round goes on until nobody can run**, if every world on the way is winding. -/
theorem ready_settle (hP : ∀ s, P s → P (s.tick m))
    (hwind : ∀ s, P s → s.world.tasks.Sorted ∧ s.world.Winding m) (h : P s) :
    (s.settle m).ready = [] :=
  ready_run hP hwind h (Nat.le_refl _)

/-- Turn after turn, the tasks in line come to a point where nobody can run, and not before that do
they settle. -/
def Ends (m : Machine σ ω κ ι ρ) (s : RunQueue σ ω κ ι ρ) : Prop :=
  ∃ n ≤ s.potential m, (∀ k < n, ((tick m)^[k] s).ready ≠ []) ∧ ((tick m)^[n] s).ready = [] ∧
    s.settle m = (tick m)^[n] s

theorem ends_of_settle (h : (s.settle m).ready = []) : s.Ends m := by
  have hend : ∃ n, ((tick m)^[n] s).ready = [] :=
    ⟨s.potential m, by rw [← run_eq_iterate]; exact h⟩
  -- the first point at which nobody can run
  refine ⟨Nat.find hend, Nat.find_min' hend (by rw [← run_eq_iterate]; exact h),
    fun k hk => Nat.find_min hend hk, Nat.find_spec hend, ?_⟩
  rw [← run_eq_iterate]
  refine run_eq_of_ready h ?_
  rw [run_eq_iterate]
  exact Nat.find_spec hend

end RunQueue

end BoundedQueue
