import BoundedQueue.Proofs.Schedule.Run

/-!
# The order of a task's operations

A task performs its operations one after the other, in the order in which they were handed to it.
What a task was ever told is `World.assigned`: the operations that it has `finished`, the one in
which it stands, and those that it has not begun.

* `Proceeds` says what can become of a task in a step: it begins some operations, in the order in
  which they are ahead of it, and is given some more behind all others.  `advance_proceeds` and
  `handOut_proceeds` are the two kinds of steps.
* `assigned_after` says that nothing is added to what a task was told but what is handed out to it
  (`given`).  A task that has something left to do is given nothing.
* `begun_mono` says that the operations which a task has begun are a beginning of it, and that the
  task never goes back behind it; `finished_mono` says the same of those that it has finished.
-/

set_option autoImplicit false

namespace BoundedQueue

variable {σ ω κ ι ρ : Type}

/-- The operation that an instruction asks for. -/
def Instruction.op? : Instruction ω → Option ω
  | perform op => some op
  | _ => none

/-- The operation that is over. -/
def Occurrence.op? : Occurrence ω ρ → Option ω
  | completed op _ => some op
  | _ => none

namespace Task

/-- The operation in which a task stands, if it stands in one. -/
def current (task : Task ω κ) : List ω :=
  match task.standing with
  | .inside op _ => [op]
  | _ => []

/-- The operations that a task has not begun. -/
def ahead (task : Task ω κ) : List ω := task.todo.filterMap Instruction.op?

theorem current_of_outside {task : Task ω κ} (h : task.isInside = false) : task.current = [] := by
  obtain ⟨standing, todo⟩ := task
  cases standing with
  | inside => cases h
  | idle | paused => rfl

end Task

namespace World

/-- The operations that a task has finished, oldest first. -/
def finished (w : World σ ω κ ρ) (t : Int) : List ω :=
  (w.events.filterMap fun e => if e.task = t then e.what.op? else none).reverse

/-- The operations that a task has begun, oldest first. -/
def begun (w : World σ ω κ ρ) (t : Int) : List ω := w.finished t ++ (w.tasks.get t).current

/-- The operations that a task was told to perform, oldest first. -/
def assigned (w : World σ ω κ ρ) (t : Int) : List ω := w.begun t ++ (w.tasks.get t).ahead

/-- The operations that an assignment gives to task `t`.  A task that has something left to do is
given nothing. -/
def gives (w : World σ ω κ ρ) (a : Assignment ω) (t : Int) : List ω :=
  if a.task = t ∧ (w.tasks.get t).isUnfinished = false then a.todo.filterMap Instruction.op? else []

/-- The operations that are given to a task in a run, oldest first. -/
def given (m : Machine σ ω κ ι ρ) (w : World σ ω κ ρ) (t : Int) : List (Happening ω) → List ω
  | [] => []
  | .advance _ :: hs => w.given m t hs
  | .handOut a :: hs => w.given m t hs ++ (w.after m hs).gives a t

variable {m : Machine σ ω κ ι ρ} {w w' : World σ ω κ ρ} {t u : Int}

/-! ## What is over -/

theorem finished_append (new : List (Occurrence ω ρ))
    (h : w'.events = new.map (Event.mk t) ++ w.events) (u : Int) :
    w'.finished u =
      w.finished u ++ if t = u then (new.filterMap Occurrence.op?).reverse else [] := by
  rw [finished, h, List.filterMap_append, List.reverse_append, finished, List.filterMap_map]
  congr 1
  split
  · next heq => simp only [Function.comp_def, if_pos heq]
  · next hne =>
    simp only [Function.comp_def, if_neg hne]
    rw [List.filterMap_eq_nil_iff.2 fun _ _ => rfl, List.reverse_nil]

theorem finished_self (new : List (Occurrence ω ρ))
    (h : w'.events = new.map (Event.mk t) ++ w.events) :
    w'.finished t = w.finished t ++ (new.filterMap Occurrence.op?).reverse := by
  rw [finished_append new h, if_pos rfl]

theorem finished_of_ne (new : List (Occurrence ω ρ))
    (h : w'.events = new.map (Event.mk t) ++ w.events) (hu : u ≠ t) :
    w'.finished u = w.finished u := by
  rw [finished_append new h, if_neg (Ne.symm hu), List.append_nil]

/-- What is reported about a step is about the task that takes it. -/
theorem advance_events (m : Machine σ ω κ ι ρ) (w : World σ ω κ ρ) (t : Int) :
    ∃ new : List (Occurrence ω ρ),
      (w.advance m t).1.events = new.map (Event.mk t) ++ w.events := by
  have hsettle (op : ω) (todo : List (Instruction ω)) (r : σ × Move κ ι ρ) :
      ∃ new : List (Occurrence ω ρ),
        (w.settleMove t op todo r).1.events = new.map (Event.mk t) ++ w.events := by
    obtain ⟨shared, move⟩ := r
    cases move with
    | finish result => exact ⟨[.completed op result], rfl⟩
    | go | wait | signal => exact ⟨[], rfl⟩
  rcases hx : w.tasks.get t with ⟨standing, todo⟩
  cases standing with
  | inside op k => rw [advance_of_inside m hx]; exact hsettle _ _ _
  | paused => rw [advance_of_paused m hx]; exact ⟨[.yielded], rfl⟩
  | idle =>
    cases todo with
    | nil => rw [advance_of_nil m hx]; exact ⟨[], rfl⟩
    | cons i todo =>
      cases i with
      | perform op => rw [advance_of_perform m hx]; exact hsettle _ _ _
      | yield => rw [advance_of_yield m hx]; exact ⟨[], rfl⟩
      | unreadable name fault =>
        rw [advance_of_unreadable m hx]; exact ⟨[.unreadable name fault], rfl⟩

/-! ## One step -/

/-- Task `t` goes from world `w` to `w'`: it begins the operations `new`, and is given `extra`. -/
structure Proceeds (w w' : World σ ω κ ρ) (t : Int) (new extra : List ω) : Prop where
  begun_eq : w'.begun t = w.begun t ++ new
  ahead_eq : (w.tasks.get t).ahead ++ extra = new ++ (w'.tasks.get t).ahead

namespace Proceeds

variable {new extra : List ω}

theorem assigned (h : Proceeds w w' t new extra) : w'.assigned t = w.assigned t ++ extra := by
  rw [World.assigned, h.begun_eq, List.append_assoc, ← h.ahead_eq, ← List.append_assoc]
  rfl

theorem begun_mono (h : Proceeds w w' t new extra) : w.begun t <+: w'.begun t :=
  ⟨new, h.begun_eq.symm⟩

/-- A task that begins nothing, is given nothing, and none of whose operations is over. -/
theorem refl (hc : (w'.tasks.get t).current = (w.tasks.get t).current)
    (ha : (w'.tasks.get t).ahead = (w.tasks.get t).ahead) (hf : w'.finished t = w.finished t) :
    Proceeds w w' t [] [] :=
  ⟨by rw [begun, begun, hc, hf, List.append_nil], by rw [ha, List.append_nil]; rfl⟩

/-- A task that goes from `x` to `y`, both outside of any operation. -/
theorem outside {x y : Task ω κ} (hy : w'.tasks.get t = y) (hx : w.tasks.get t = x)
    (hyo : y.isInside = false) (hxo : x.isInside = false) (ha : y.ahead = x.ahead)
    (hf : w'.finished t = w.finished t) : Proceeds w w' t [] [] :=
  refl (by rw [hy, hx, Task.current_of_outside hyo, Task.current_of_outside hxo])
    (by rw [hy, hx, ha]) hf

end Proceeds

/-- A task that carries out a section of `op` is in `op` afterwards, or has just finished it. -/
theorem settleMove_begun (w : World σ ω κ ρ) (t : Int) (op : ω) (todo : List (Instruction ω))
    (r : σ × Move κ ι ρ) : (w.settleMove t op todo r).1.begun t = w.finished t ++ [op] ∧
      ((w.settleMove t op todo r).1.tasks.get t).todo = todo := by
  obtain ⟨shared, move⟩ := r
  have hget (x : Task ω κ) : (w.tasks.set t x).get t = x := Roster.get_set_self _ _ _
  cases move with
  | go next | wait on next | signal on next =>
    exact ⟨congrArg (w.finished t ++ Task.current ·) (hget ⟨.inside op next, todo⟩),
      congrArg Task.todo (hget ⟨.inside op next, todo⟩)⟩
  | finish result =>
    refine ⟨?_, congrArg Task.todo (hget ⟨.idle, todo⟩)⟩
    rw [begun, finished_self [.completed op result] rfl]
    refine (congrArg (w.finished t ++ [op] ++ Task.current ·) (hget ⟨.idle, todo⟩)).trans ?_
    exact List.append_nil _

/-- A step begins at most the operation that is next. -/
theorem advance_proceeds (m : Machine σ ω κ ι ρ) (w : World σ ω κ ρ) (t u : Int) :
    ∃ new, Proceeds w (w.advance m t).1 u new [] := by
  by_cases hu : u = t
  · subst hu
    have hget (x : Task ω κ) : (w.tasks.set u x).get u = x := Roster.get_set_self _ _ _
    rcases hx : w.tasks.get u with ⟨standing, todo⟩
    cases standing with
    | inside op k =>
      obtain ⟨hbegun, htodo⟩ := settleMove_begun w u op todo (m.resume k w.shared)
      rw [advance_of_inside m hx]
      refine ⟨[], ?_, ?_⟩
      · rw [hbegun, begun, hx, List.append_nil]; rfl
      · rw [Task.ahead, Task.ahead, htodo, hx, List.append_nil]; rfl
    | paused =>
      rw [advance_of_paused m hx]
      exact ⟨[], .outside (hget ⟨.idle, todo⟩) hx rfl rfl rfl
        ((finished_self [.yielded] rfl).trans (List.append_nil _))⟩
    | idle =>
      cases todo with
      | nil => rw [advance_of_nil m hx]; exact ⟨[], .refl rfl rfl rfl⟩
      | cons i todo =>
        cases i with
        | perform op =>
          obtain ⟨hbegun, htodo⟩ :=
            settleMove_begun w u op todo (m.start (w.tasks.othersOutside u) op w.shared)
          rw [advance_of_perform m hx]
          refine ⟨[op], ?_, ?_⟩
          · rw [hbegun, begun, hx]
            exact congrArg (· ++ [op]) (List.append_nil _).symm
          · rw [Task.ahead, Task.ahead, htodo, hx, List.append_nil]; rfl
        | yield =>
          rw [advance_of_yield m hx]
          exact ⟨[], .outside (hget ⟨.paused, todo⟩) hx rfl rfl rfl rfl⟩
        | unreadable name fault =>
          rw [advance_of_unreadable m hx]
          exact ⟨[], .outside (hget ⟨.idle, todo⟩) hx rfl rfl rfl
            ((finished_self [.unreadable name fault] rfl).trans (List.append_nil _))⟩
  · obtain ⟨new, hnew⟩ := advance_events m w t
    have hget := advance_get_of_ne m w t hu
    exact ⟨[], .refl (congrArg _ hget) (congrArg _ hget) (finished_of_ne new hnew hu)⟩

/-- An assignment is given behind everything else. -/
theorem handOut_proceeds (w : World σ ω κ ρ) (a : Assignment ω) (u : Int) :
    Proceeds w (w.handOut a) u [] (w.gives a u) := by
  have hfinished : (w.handOut a).finished u = w.finished u := by
    rcases w.handOut_events a with h | h
    · rw [finished, h]; rfl
    · exact (finished_append [.busy] h u).trans (by split <;> exact List.append_nil _)
  by_cases hgives : a.task = u ∧ (w.tasks.get u).isUnfinished = false
  · obtain ⟨rfl, hfin⟩ := hgives
    have hfree := Task.eq_free hfin
    have htodo : (w.handOut a).tasks.get a.task = ⟨.idle, a.todo⟩ := by
      rw [handOut, hfin, if_neg Bool.false_ne_true]
      split
      · next hnil => rw [hfree, List.isEmpty_iff.1 hnil]; rfl
      · exact Roster.get_set_self _ _ _
    refine ⟨?_, ?_⟩
    · rw [begun, begun, htodo, hfree, hfinished, List.append_nil]; rfl
    · rw [gives, if_pos ⟨rfl, hfin⟩, htodo, hfree]; rfl
  · have hget : (w.handOut a).tasks.get u = w.tasks.get u := by
      unfold handOut
      split
      · rfl
      · next hfin =>
        split
        · rfl
        · refine Roster.get_set_of_ne _ _ fun heq => hgives ⟨heq.symm, ?_⟩
          rw [heq]
          simpa using hfin
    rw [gives, if_neg hgives]
    exact .refl (congrArg _ hget) (congrArg _ hget) hfinished

/-! ## Runs -/

/-- A task to which nothing is handed out is told nothing. -/
theorem given_eq_nil {hs : List (Happening ω)} (h : ∀ a, .handOut a ∈ hs → a.task ≠ t) :
    w.given m t hs = [] := by
  induction hs with
  | nil => rfl
  | cons x hs ih =>
    have hrest := ih fun a ha => h a (List.mem_cons_of_mem _ ha)
    cases x with
    | advance u => exact hrest
    | handOut a =>
      rw [given, hrest, gives, if_neg fun ⟨ht, _⟩ => h a List.mem_cons_self ht]
      rfl

/-- What is given to a task is handed out. -/
theorem exists_of_mem_given {op : ω} {hs : List (Happening ω)} (h : op ∈ w.given m t hs) :
    ∃ a, .handOut a ∈ hs ∧ .perform op ∈ a.todo := by
  induction hs with
  | nil => cases h
  | cons x hs ih =>
    have hrest (h : op ∈ w.given m t hs) : ∃ a, .handOut a ∈ x :: hs ∧ .perform op ∈ a.todo := by
      obtain ⟨a, ha, hop⟩ := ih h
      exact ⟨a, List.mem_cons_of_mem _ ha, hop⟩
    cases x with
    | advance u => exact hrest h
    | handOut a =>
      rcases List.mem_append.1 h with h | h
      · exact hrest h
      · rw [gives] at h
        split at h
        · obtain ⟨i, hi, hop⟩ := List.mem_filterMap.1 h
          cases i with
          | perform => cases hop; exact ⟨a, List.mem_cons_self, hi⟩
          | yield | unreadable => cases hop
        · cases h

/-- **A task is told what is handed out to it, and nothing else.** -/
theorem assigned_after (m : Machine σ ω κ ι ρ) (w : World σ ω κ ρ) (t : Int)
    (hs : List (Happening ω)) : (w.after m hs).assigned t = w.assigned t ++ w.given m t hs := by
  induction hs with
  | nil => exact (List.append_nil _).symm
  | cons x hs ih =>
    rw [after_cons]
    cases x with
    | advance u =>
      obtain ⟨new, h⟩ := advance_proceeds m (w.after m hs) u t
      rw [happen, h.assigned, List.append_nil, ih]
      rfl
    | handOut a => rw [happen, (handOut_proceeds _ a t).assigned, ih, List.append_assoc]; rfl

/-- What a task has begun, it has begun for good. -/
theorem begun_mono (m : Machine σ ω κ ι ρ) (w : World σ ω κ ρ) (t : Int) (x : Happening ω) :
    w.begun t <+: (w.happen m x).begun t := by
  cases x with
  | advance u =>
    obtain ⟨new, h⟩ := advance_proceeds m w u t
    exact h.begun_mono
  | handOut a => exact (handOut_proceeds w a t).begun_mono

/-- What a task has finished stays finished. -/
theorem finished_mono (m : Machine σ ω κ ι ρ) (w : World σ ω κ ρ) (t : Int)
    (hs : List (Happening ω)) : w.finished t <+: (w.after m hs).finished t := by
  induction hs with
  | nil => exact List.prefix_rfl
  | cons x hs ih =>
    refine ih.trans ?_
    obtain ⟨new, h⟩ := happen_events m (w.after m hs) x
    rw [after_cons, finished, finished, h, List.filterMap_append, List.reverse_append]
    exact List.prefix_append _ _

end World

end BoundedQueue
