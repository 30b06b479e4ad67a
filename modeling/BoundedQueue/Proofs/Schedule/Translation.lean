import BoundedQueue.Proofs.Schedule.Settling

/-!
# Translations of machines

A `Dictionary` translates shared states, operations, places and results.  It applies to everything
that is made of these: tasks, rosters, reports, worlds and run queues.

A machine `Mimics` another one if every section of an operation does the same, but for the
translation, to shared states that are alike.  Then whole rounds of work do the same, because a
schedule looks at nothing that is translated: `Mimics.carryOut` and `RunQueue.Alike.roundSince_eq`.
The states need not determine each other; where a dictionary translates them,
`RunQueue.alike_map_iff` says that a run queue is like its translation.

The operations may be required to be `Fit`.  What is required of the states may be known only
afterwards, in the form of a `Sound` state at the end, as long as it is handed back from there.
-/

set_option autoImplicit false

namespace BoundedQueue

variable {σ ω κ ι ρ σ' ω' κ' ρ' : Type}

/-- How shared states, operations, places and results are translated. -/
structure Dictionary (σ ω κ ρ σ' ω' κ' ρ' : Type) where
  shared : σ → σ'
  operation : ω → ω'
  place : κ → κ'
  result : ρ → ρ'

/-! ## Translating data -/

/-- Translates places and results. -/
def Move.map (g : κ → κ') (h : ρ → ρ') : Move κ ι ρ → Move κ' ι ρ'
  | go next => go (g next)
  | wait on retry => wait on (g retry)
  | signal on next => signal on (g next)
  | finish result => finish (h result)

/-- Translates the operation to perform. -/
def Instruction.map (g : ω → ω') : Instruction ω → Instruction ω'
  | perform op => perform (g op)
  | yield => yield
  | unreadable name fault => unreadable name fault

/-- Translates the operations to perform. -/
def Assignment.map (g : ω → ω') (a : Assignment ω) : Assignment ω' :=
  ⟨a.task, a.todo.map (Instruction.map g)⟩

/-- Translates an operation and a place in it. -/
def Standing.map (g : ω → ω') (h : κ → κ') : Standing ω κ → Standing ω' κ'
  | idle => idle
  | paused => paused
  | inside op place => inside (g op) (h place)

/-- Translates where a task stands, and what it has left to do. -/
def Task.map (g : ω → ω') (h : κ → κ') (task : Task ω κ) : Task ω' κ' :=
  ⟨task.standing.map g h, task.todo.map (Instruction.map g)⟩

/-- Translates every task. -/
def Roster.map (g : ω → ω') (h : κ → κ') (r : Roster ω κ) : Roster ω' κ' :=
  List.map (fun e => (e.1, e.2.map g h)) r

/-- Translates an operation and its result. -/
def Occurrence.map (g : ω → ω') (h : ρ → ρ') : Occurrence ω ρ → Occurrence ω' ρ'
  | completed op result => completed (g op) (h result)
  | yielded => yielded
  | unreadable name fault => unreadable name fault
  | busy => busy

/-- Translates what is reported about a task. -/
def Event.map (g : ω → ω') (h : ρ → ρ') (e : Event ω ρ) : Event ω' ρ' := ⟨e.task, e.what.map g h⟩

/-- Translates what is reported about a round. -/
def Round.map (g : ω → ω') (h : ρ → ρ') (r : Round ω ρ) : Round ω' ρ' :=
  ⟨r.events.map (Event.map g h), r.blocked⟩

/-- Translates the work that is handed out. -/
def Happening.map (g : ω → ω') : Happening ω → Happening ω'
  | advance t => advance t
  | handOut a => handOut (a.map g)

/-- Translates a whole world. -/
def World.map (φ : Dictionary σ ω κ ρ σ' ω' κ' ρ') (w : World σ ω κ ρ) : World σ' ω' κ' ρ' :=
  ⟨φ.shared w.shared, w.tasks.map φ.operation φ.place,
    w.events.map (Event.map φ.operation φ.result)⟩

/-- Translates the world of a run queue. -/
def RunQueue.map (φ : Dictionary σ ω κ ρ σ' ω' κ' ρ') (s : RunQueue σ ω κ ι ρ) :
    RunQueue σ' ω' κ' ι ρ' :=
  ⟨s.world.map φ, s.ready, s.waiting, s.wake⟩

namespace Task

variable (g : ω → ω') (h : κ → κ') (task : Task ω κ)

@[simp] theorem isInside_map : (task.map g h).isInside = task.isInside := by
  obtain ⟨standing, todo⟩ := task
  cases standing <;> rfl

@[simp] theorem isUnfinished_map : (task.map g h).isUnfinished = task.isUnfinished := by
  obtain ⟨standing, todo⟩ := task
  cases standing with
  | idle => cases todo <;> rfl
  | paused | inside => rfl

end Task

namespace Roster

variable (g : ω → ω') (h : κ → κ') (r : Roster ω κ) (t : Int)

@[simp] theorem get_map : (r.map g h).get t = (r.get t).map g h := by
  induction r with
  | nil => rfl
  | cons e r ih =>
    obtain ⟨u, task⟩ := e
    show (if u = t then task.map g h else (map g h r).get t) = _
    rw [ih, get]
    split <;> rfl

@[simp] theorem set_map (task : Task ω κ) :
    (r.map g h).set t (task.map g h) = (r.set t task).map g h := by
  induction r with
  | nil => rfl
  | cons e r ih =>
    obtain ⟨u, old⟩ := e
    show (if t < u then (t, task.map g h) :: (u, old.map g h) :: map g h r
      else if t = u then (t, task.map g h) :: map g h r
      else (u, old.map g h) :: (map g h r).set t (task.map g h)) = _
    rw [ih, set]
    split
    · rfl
    · split <;> rfl

@[simp] theorem othersOutside_map : (r.map g h).othersOutside t = r.othersOutside t := by
  rw [othersOutside, map, List.all_map, othersOutside]
  simp [Function.comp_def]

@[simp] theorem unfinished_map : (r.map g h).unfinished = r.unfinished := by
  rw [unfinished, map, List.filter_map, List.map_map, unfinished]
  simp [Function.comp_def]

end Roster

theorem newSince_map {β γ : Type} (g : β → γ) (before after : List β) :
    newSince (before.map g) (after.map g) = (newSince before after).map g := by
  simp [newSince, List.map_take]

/-! Nothing is translated by the identity. -/

section Identity

@[simp] theorem Instruction.map_id : Instruction.map (id : ω → ω) = id := by
  funext i
  cases i <;> rfl

@[simp] theorem Assignment.map_id : Assignment.map (id : ω → ω) = id := by
  funext a
  rw [map, Instruction.map_id, List.map_id]
  rfl

@[simp] theorem Standing.map_id : Standing.map (id : ω → ω) (id : κ → κ) = id := by
  funext standing
  cases standing <;> rfl

@[simp] theorem Task.map_id : Task.map (id : ω → ω) (id : κ → κ) = id := by
  funext task
  rw [map, Instruction.map_id, Standing.map_id, List.map_id]
  rfl

@[simp] theorem Roster.map_id : Roster.map (id : ω → ω) (id : κ → κ) = id := by
  funext r
  simp [map]

@[simp] theorem Occurrence.map_id : Occurrence.map (id : ω → ω) (id : ρ → ρ) = id := by
  funext what
  cases what <;> rfl

@[simp] theorem Event.map_id : Event.map (id : ω → ω) (id : ρ → ρ) = id := by
  funext e
  rw [map, Occurrence.map_id]
  rfl

@[simp] theorem Round.map_id : Round.map (id : ω → ω) (id : ρ → ρ) = id := by
  funext r
  rw [map, Event.map_id, List.map_id]
  rfl

@[simp] theorem Happening.map_id : Happening.map (id : ω → ω) = id := by
  funext x
  cases x <;> simp [map]

end Identity

/-! ## Machines that do the same -/

/-- How operations, places and results are translated between machines whose shared states need not
determine each other. -/
structure Glossary (ω κ ρ ω' κ' ρ' : Type) where
  operation : ω → ω'
  place : κ → κ'
  result : ρ → ρ'

/-- The part of a dictionary that is not about shared states. -/
def Dictionary.glossary (φ : Dictionary σ ω κ ρ σ' ω' κ' ρ') : Glossary ω κ ρ ω' κ' ρ' :=
  ⟨φ.operation, φ.place, φ.result⟩

/-- The second machine does to a shared state what the first one does to a state that is `Like` it.
The operations may be required to be `Fit`, and the state that a section of the first machine leaves
to be `Sound`, which it has then been all the time. -/
structure Mimics (γ : Glossary ω κ ρ ω' κ' ρ') (m : Machine σ ω κ ι ρ) (m' : Machine σ' ω' κ' ι ρ')
    (Like : σ → σ' → Prop) (Sound : σ → Prop) (Fit : ω → Prop) : Prop where
  start : ∀ alone op {s s'}, Like s s' → Fit op → Sound (m.start alone op s).1 →
    Like (m.start alone op s).1 (m'.start alone (γ.operation op) s').1 ∧
      (m'.start alone (γ.operation op) s').2 = (m.start alone op s).2.map γ.place γ.result
  resume : ∀ k {s s'}, Like s s' → Sound (m.resume k s).1 →
    Like (m.resume k s).1 (m'.resume (γ.place k) s').1 ∧
      (m'.resume (γ.place k) s').2 = (m.resume k s).2.map γ.place γ.result
  sound_of_start : ∀ alone op s, Sound (m.start alone op s).1 → Sound s
  sound_of_resume : ∀ k s, Sound (m.resume k s).1 → Sound s
  demand_eq : ∀ op, m'.demand (γ.operation op) = m.demand op
  effort_eq : ∀ k, m'.effort (γ.place k) = m.effort k
  stock_eq : ∀ {s s'}, Like s s' → m'.stock s' = m.stock s

/-- Every operation that is to be performed is fit. -/
def AllFit (Fit : ω → Prop) (todo : List (Instruction ω)) : Prop :=
  ∀ op, .perform op ∈ todo → Fit op

theorem AllFit.tail {Fit : ω → Prop} {i : Instruction ω} {todo : List (Instruction ω)}
    (h : AllFit Fit (i :: todo)) : AllFit Fit todo :=
  fun op hop => h op (List.mem_cons_of_mem i hop)

/-- Two worlds have shared states that are alike, and the same tasks and reports but for the
translation. -/
structure World.Alike (γ : Glossary ω κ ρ ω' κ' ρ') (Like : σ → σ' → Prop) (Fit : ω → Prop)
    (w : World σ ω κ ρ) (w' : World σ' ω' κ' ρ') : Prop where
  shared : Like w.shared w'.shared
  tasks_eq : w'.tasks = w.tasks.map γ.operation γ.place
  events_eq : w'.events = w.events.map (Event.map γ.operation γ.result)
  /-- What is to be performed is fit. -/
  fit : ∀ t, AllFit Fit (w.tasks.get t).todo

/-- Two run queues have worlds that are alike, with the same tasks in line and waiting. -/
structure RunQueue.Alike (γ : Glossary ω κ ρ ω' κ' ρ') (Like : σ → σ' → Prop) (Fit : ω → Prop)
    (s : RunQueue σ ω κ ι ρ) (s' : RunQueue σ' ω' κ' ι ρ') : Prop where
  world : s.world.Alike γ Like Fit s'.world
  ready_eq : s'.ready = s.ready
  waiting_eq : s'.waiting = s.waiting
  wake_eq : s'.wake = s.wake

variable {γ : Glossary ω κ ρ ω' κ' ρ'} {m : Machine σ ω κ ι ρ} {m' : Machine σ' ω' κ' ι ρ'}
  {Like : σ → σ' → Prop} {Sound : σ → Prop} {Fit : ω → Prop}

/-- Rounds are seen alike. -/
theorem RunQueue.Alike.roundSince_eq {before after : RunQueue σ ω κ ι ρ}
    {before' after' : RunQueue σ' ω' κ' ι ρ'} (hbefore : before.Alike γ Like Fit before')
    (hafter : after.Alike γ Like Fit after') :
    before'.roundSince after' = (before.roundSince after).map γ.operation γ.result := by
  simp only [roundSince, Round.map, hbefore.world.events_eq, hafter.world.events_eq,
    hafter.world.tasks_eq, newSince_map, Roster.unfinished_map]

namespace World.Alike

variable {w : World σ ω κ ρ} {w' : World σ' ω' κ' ρ'} {s : σ} {s' : σ'} {t : Int} {op : ω}
  {todo : List (Instruction ω)}

theorem get_eq (h : w.Alike γ Like Fit w') (t : Int) :
    w'.tasks.get t = (w.tasks.get t).map γ.operation γ.place := by
  rw [h.tasks_eq, Roster.get_map]

theorem place (h : w.Alike γ Like Fit w') (hs : Like s s') (t : Int) (standing : Standing ω κ)
    (htodo : AllFit Fit todo) :
    ({ w with shared := s }.place t standing todo).Alike γ Like Fit
      ({ w' with shared := s' }.place t (standing.map γ.operation γ.place)
        (todo.map (Instruction.map γ.operation))) where
  shared := hs
  tasks_eq := by
    show w'.tasks.set t (Task.map γ.operation γ.place ⟨standing, todo⟩) = _
    rw [h.tasks_eq, Roster.set_map]
    rfl
  events_eq := h.events_eq
  fit u := by
    show AllFit Fit ((w.tasks.set t ⟨standing, todo⟩).get u).todo
    rw [Roster.get_set]
    split
    · exact htodo
    · exact h.fit u

theorem report (h : w.Alike γ Like Fit w') (t : Int) (what : Occurrence ω ρ) :
    (w.report t what).Alike γ Like Fit (w'.report t (what.map γ.operation γ.result)) where
  shared := h.shared
  tasks_eq := h.tasks_eq
  events_eq := congrArg (_ :: ·) h.events_eq
  fit := h.fit

/-- Sections that do the same come to the same. -/
theorem settleMove {r : σ × Move κ ι ρ} {r' : σ' × Move κ' ι ρ'} (h : w.Alike γ Like Fit w')
    (hs : Like r.1 r'.1) (hmove : r'.2 = r.2.map γ.place γ.result) (t : Int) (op : ω)
    (htodo : AllFit Fit todo) :
    (w.settleMove t op todo r).1.Alike γ Like Fit
        (w'.settleMove t (γ.operation op) (todo.map (Instruction.map γ.operation)) r').1 ∧
      (w'.settleMove t (γ.operation op) (todo.map (Instruction.map γ.operation)) r').2 =
        (w.settleMove t op todo r).2 := by
  obtain ⟨shared, move⟩ := r
  obtain ⟨shared', move'⟩ := r'
  obtain rfl : move' = _ := hmove
  cases move with
  | go next => exact ⟨h.place hs t (.inside op next) htodo, rfl⟩
  | wait on retry => exact ⟨h.place hs t (.inside op retry) htodo, rfl⟩
  | signal on next => exact ⟨h.place hs t (.inside op next) htodo, rfl⟩
  | finish result => exact ⟨(h.place hs t .idle htodo).report t (.completed op result), rfl⟩

theorem handOut (h : w.Alike γ Like Fit w') {a : Assignment ω} (ha : AllFit Fit a.todo) :
    (w.handOut a).Alike γ Like Fit (w'.handOut (a.map γ.operation)) := by
  have hget : w'.tasks.get (a.map γ.operation).task = _ := h.get_eq a.task
  unfold World.handOut
  rw [hget, Task.isUnfinished_map]
  show World.Alike γ Like Fit _ (if _ then _ else
    if (a.todo.map (Instruction.map γ.operation)).isEmpty then _ else _)
  rw [List.isEmpty_map]
  split
  · exact h.report a.task .busy
  · split
    · exact h
    · exact h.place h.shared a.task .idle ha

end World.Alike

namespace Mimics

variable (h : Mimics γ m m' Like Sound Fit) {w : World σ ω κ ρ} {w' : World σ' ω' κ' ρ'}

include h

/-- A shared state that is sound after a step has been so before. -/
theorem sound_of_advance {t : Int} (hw : Sound (w.advance m t).1.shared) : Sound w.shared := by
  rcases hx : w.tasks.get t with ⟨standing, todo⟩
  cases standing with
  | inside op k =>
    rw [World.advance_of_inside m hx, World.settleMove_shared] at hw
    exact h.sound_of_resume k _ hw
  | paused => rw [World.advance_of_paused m hx] at hw; exact hw
  | idle =>
    cases todo with
    | nil => rw [World.advance_of_nil m hx] at hw; exact hw
    | cons i todo =>
      cases i with
      | perform op =>
        rw [World.advance_of_perform m hx, World.settleMove_shared] at hw
        exact h.sound_of_start _ op _ hw
      | yield => rw [World.advance_of_yield m hx] at hw; exact hw
      | unreadable name fault => rw [World.advance_of_unreadable m hx] at hw; exact hw

/-- **Worlds that are alike stay so when a task does one thing**, and it does the same in both. -/
theorem advance (hw : w.Alike γ Like Fit w') (t : Int)
    (hsound : Sound (w.advance m t).1.shared) :
    (w.advance m t).1.Alike γ Like Fit (w'.advance m' t).1 ∧
      (w'.advance m' t).2 = (w.advance m t).2 := by
  have hget := hw.get_eq t
  have hfit := hw.fit t
  rcases hx : w.tasks.get t with ⟨standing, todo⟩
  rw [hx] at hget hfit
  cases standing with
  | inside op k =>
    rw [World.advance_of_inside m hx, World.settleMove_shared] at hsound
    rw [World.advance_of_inside m hx, World.advance_of_inside m' hget]
    obtain ⟨hs, hmove⟩ := h.resume k hw.shared hsound
    exact hw.settleMove hs hmove t op hfit
  | paused =>
    rw [World.advance_of_paused m hx, World.advance_of_paused m' hget]
    exact ⟨(hw.place hw.shared t .idle hfit).report t .yielded, rfl⟩
  | idle =>
    cases todo with
    | nil =>
      rw [World.advance_of_nil m hx, World.advance_of_nil m' hget]
      exact ⟨hw, rfl⟩
    | cons i todo =>
      cases i with
      | perform op =>
        rw [World.advance_of_perform m hx, World.settleMove_shared] at hsound
        rw [World.advance_of_perform m hx, World.advance_of_perform m' hget, hw.tasks_eq,
          Roster.othersOutside_map]
        obtain ⟨hs, hmove⟩ := h.start _ op hw.shared (hfit op List.mem_cons_self) hsound
        exact hw.settleMove hs hmove t op hfit.tail
      | yield =>
        rw [World.advance_of_yield m hx, World.advance_of_yield m' hget]
        exact ⟨hw.place hw.shared t .paused hfit.tail, rfl⟩
      | unreadable name fault =>
        rw [World.advance_of_unreadable m hx, World.advance_of_unreadable m' hget]
        exact ⟨(hw.place hw.shared t .idle hfit.tail).report t (.unreadable name fault), rfl⟩

theorem sound_of_happen {x : Happening ω} (hw : Sound (w.happen m x).shared) : Sound w.shared := by
  cases x with
  | advance t => exact h.sound_of_advance hw
  | handOut a => rw [World.happen, World.handOut_shared] at hw; exact hw

/-- **Worlds that are alike stay so, whatever happens to both.** -/
theorem after {hs : List (Happening ω)} (hfit : ∀ a, .handOut a ∈ hs → AllFit Fit a.todo)
    (hw : w.Alike γ Like Fit w') (hsound : Sound (w.after m hs).shared) :
    (w.after m hs).Alike γ Like Fit (w'.after m' (hs.map (Happening.map γ.operation))) := by
  induction hs with
  | nil => exact hw
  | cons x hs ih =>
    have hbefore := ih (fun a ha => hfit a (List.mem_cons_of_mem x ha)) (h.sound_of_happen hsound)
    cases x with
    | advance t => exact (h.advance hbefore t hsound).1
    | handOut a => exact hbefore.handOut (hfit a List.mem_cons_self)

/-- Run queues that are alike stay so in a turn. -/
theorem tick [DecidableEq ι] {s : RunQueue σ ω κ ι ρ} {s' : RunQueue σ' ω' κ' ι ρ'}
    (hs : s.Alike γ Like Fit s') (hsound : Sound (s.tick m).world.shared) :
    (s.tick m).Alike γ Like Fit (s'.tick m') := by
  obtain ⟨world, ready, waiting, wake⟩ := s
  obtain ⟨world', ready', waiting', wake'⟩ := s'
  obtain ⟨hworld, hready, hwaiting, hwake⟩ := hs
  obtain rfl : ready' = ready := hready
  obtain rfl : waiting' = waiting := hwaiting
  obtain rfl : wake' = wake := hwake
  cases ready' with
  | nil => exact ⟨hworld, rfl, rfl, rfl⟩
  | cons t rest =>
    rw [RunQueue.tick_of_ready m rfl, RunQueue.world_requeue] at hsound
    rw [RunQueue.tick_of_ready m rfl, RunQueue.tick_of_ready m' rfl]
    obtain ⟨hadvance, hturn⟩ := h.advance hworld t hsound
    simp only [hturn]
    cases (world.advance m t).2 with
    | idle | ran | yielded | blocked => exact ⟨hadvance, rfl, rfl, rfl⟩
    | signalled on =>
      simp only [RunQueue.requeue]
      split <;> exact ⟨hadvance, rfl, rfl, rfl⟩

theorem sound_of_tick [DecidableEq ι] {s : RunQueue σ ω κ ι ρ}
    (hs : Sound (s.tick m).world.shared) : Sound s.world.shared := by
  rcases RunQueue.world_tick m s with ht | ⟨t, ht⟩
  · rw [ht] at hs; exact hs
  · rw [ht] at hs; exact h.sound_of_advance hs

theorem sound_of_run [DecidableEq ι] {s : RunQueue σ ω κ ι ρ} {n : Nat}
    (hs : Sound (s.run m n).world.shared) : Sound s.world.shared := by
  induction n generalizing s with
  | zero => exact hs
  | succ n ih =>
    by_cases hready : s.ready = []
    · rwa [RunQueue.run_of_ready hready] at hs
    · rw [RunQueue.run_of_ready_ne hready] at hs
      exact h.sound_of_tick (ih hs)

theorem run [DecidableEq ι] (n : Nat) {s : RunQueue σ ω κ ι ρ} {s' : RunQueue σ' ω' κ' ι ρ'}
    (hs : s.Alike γ Like Fit s') (hsound : Sound (s.run m n).world.shared) :
    (s.run m n).Alike γ Like Fit (s'.run m' n) := by
  induction n generalizing s s' with
  | zero => exact hs
  | succ n ih =>
    by_cases hready : s.ready = []
    · rw [RunQueue.run_of_ready hready, RunQueue.run_of_ready (hs.ready_eq.trans hready)]
      exact hs
    · rw [RunQueue.run_of_ready_ne hready] at hsound
      rw [RunQueue.run_of_ready_ne hready, RunQueue.run_of_ready_ne (hs.ready_eq ▸ hready)]
      exact ih (h.tick hs (h.sound_of_run hsound)) hsound

/-- Run queues that are alike take as many turns. -/
theorem potential_eq {s : RunQueue σ ω κ ι ρ} {s' : RunQueue σ' ω' κ' ι ρ'}
    (hs : s.Alike γ Like Fit s') : s'.potential m' = s.potential m := by
  have hinstruction (i : Instruction ω) :
      RunQueue.instructionEffort m' (i.map γ.operation) = RunQueue.instructionEffort m i := by
    cases i with
    | perform op => exact h.demand_eq op
    | yield | unreadable => rfl
  have htask (task : Task ω κ) :
      RunQueue.taskEffort m' (task.map γ.operation γ.place) = RunQueue.taskEffort m task := by
    obtain ⟨standing, todo⟩ := task
    have htodo : (todo.map (Instruction.map γ.operation)).map (RunQueue.instructionEffort m') =
        todo.map (RunQueue.instructionEffort m) := by
      rw [List.map_map]
      exact List.map_congr_left fun i _ => hinstruction i
    cases standing with
    | idle | paused => simp only [RunQueue.taskEffort, Task.map, Standing.map, htodo]
    | inside op k => simp only [RunQueue.taskEffort, Task.map, Standing.map, htodo, h.effort_eq]
  have htasks : List.map (fun entry => RunQueue.taskEffort m' entry.2) s'.world.tasks =
      List.map (fun entry => RunQueue.taskEffort m entry.2) s.world.tasks := by
    rw [hs.world.tasks_eq, Roster.map, List.map_map]
    exact List.map_congr_left fun entry _ => htask entry.2
  rw [RunQueue.potential, htasks, hs.ready_eq, h.stock_eq hs.world.shared]
  rfl

omit h in
theorem handOut {s : RunQueue σ ω κ ι ρ} {s' : RunQueue σ' ω' κ' ι ρ'}
    (hs : s.Alike γ Like Fit s') {a : Assignment ω} (ha : AllFit Fit a.todo) :
    (s.handOut a).Alike γ Like Fit (s'.handOut (a.map γ.operation)) := by
  have hworld := hs.world.handOut ha
  rw [← RunQueue.world_handOut, ← RunQueue.world_handOut] at hworld
  have hget : s'.world.tasks.get (a.map γ.operation).task = _ := hs.world.get_eq a.task
  have hempty : (a.map γ.operation).todo.isEmpty = a.todo.isEmpty := List.isEmpty_map
  refine ⟨hworld, ?_, ?_, ?_⟩ <;> unfold RunQueue.handOut <;>
    rw [hget, Task.isUnfinished_map, hempty]
  · split
    · exact hs.ready_eq
    · split
      · exact hs.ready_eq
      · exact congrArg (· ++ [a.task]) hs.ready_eq
  · split
    · exact hs.waiting_eq
    · split <;> exact hs.waiting_eq
  · split
    · exact hs.wake_eq
    · split <;> exact hs.wake_eq

/-- **Run queues that are alike stay so in a round of work.** -/
theorem carryOut [DecidableEq ι] {work : List (Assignment ω)}
    (hwork : ∀ a ∈ work, AllFit Fit a.todo) {s : RunQueue σ ω κ ι ρ}
    {s' : RunQueue σ' ω' κ' ι ρ'} (hs : s.Alike γ Like Fit s')
    (hsound : Sound (s.carryOut m work).world.shared) :
    (s.carryOut m work).Alike γ Like Fit
      (s'.carryOut m' (work.map (Assignment.map γ.operation))) := by
  have hhanded : (work.foldl RunQueue.handOut s).Alike γ Like Fit
      ((work.map (Assignment.map γ.operation)).foldl RunQueue.handOut s') := by
    clear hsound
    induction work generalizing s s' with
    | nil => exact hs
    | cons a work ih =>
      exact ih (fun b hb => hwork b (List.mem_cons_of_mem a hb))
        (handOut hs (hwork a List.mem_cons_self))
  rw [RunQueue.carryOut, RunQueue.carryOut, RunQueue.settle, RunQueue.settle,
    h.potential_eq hhanded]
  exact h.run _ hhanded hsound

theorem sound_of_carryOut [DecidableEq ι] {work : List (Assignment ω)} {s : RunQueue σ ω κ ι ρ}
    (hs : Sound (s.carryOut m work).world.shared) : Sound s.world.shared := by
  have hhanded : (work.foldl RunQueue.handOut s).world.shared = s.world.shared :=
    RunQueue.world_foldl_handOut (Q := fun w => w.shared = s.world.shared)
      (fun a _ w hw => (World.handOut_shared a).trans hw) rfl
  exact hhanded ▸ h.sound_of_run hs

end Mimics

/-! ## Where a dictionary translates shared states -/

/-- The shared state is sound, and every operation that a task is to perform is fit. -/
structure World.Translatable (Sound : σ → Prop) (Fit : ω → Prop) (w : World σ ω κ ρ) : Prop where
  sound : Sound w.shared
  fit : ∀ t, AllFit Fit (w.tasks.get t).todo

namespace RunQueue

variable {φ : Dictionary σ ω κ ρ σ' ω' κ' ρ'} {s : RunQueue σ ω κ ι ρ}
  {s' : RunQueue σ' ω' κ' ι ρ'}

/-- A run queue and its translation are alike, and no other one is like it. -/
theorem alike_map_iff :
    s.Alike φ.glossary (fun s s' => s' = φ.shared s ∧ Sound s) Fit s' ↔
      s' = s.map φ ∧ s.world.Translatable Sound Fit := by
  constructor
  · rintro ⟨⟨⟨hshared, hsound⟩, htasks, hevents, hfit⟩, hready, hwaiting, hwake⟩
    obtain ⟨⟨shared, tasks, events⟩, ready, waiting, wake⟩ := s'
    obtain rfl : shared = _ := hshared
    obtain rfl : tasks = _ := htasks
    obtain rfl : events = _ := hevents
    obtain rfl : ready = _ := hready
    obtain rfl : waiting = _ := hwaiting
    obtain rfl : wake = _ := hwake
    exact ⟨rfl, hsound, hfit⟩
  · rintro ⟨rfl, hsound, hfit⟩
    exact ⟨⟨⟨rfl, hsound⟩, rfl, rfl, hfit⟩, rfl, rfl, rfl⟩

/-- Rounds are translated as a whole. -/
theorem roundSince_map (φ : Dictionary σ ω κ ρ σ' ω' κ' ρ') (before after : RunQueue σ ω κ ι ρ) :
    (before.map φ).roundSince (after.map φ) =
      (before.roundSince after).map φ.operation φ.result := by
  have halike (s : RunQueue σ ω κ ι ρ) :
      s.Alike φ.glossary (fun s s' => s' = φ.shared s ∧ True) (fun _ => True) (s.map φ) :=
    alike_map_iff.2 ⟨rfl, trivial, fun _ _ _ => trivial⟩
  exact (halike before).roundSince_eq (halike after)

end RunQueue

end BoundedQueue
