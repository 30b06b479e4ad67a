import BoundedQueue.Proofs.Schedule.Roster
import BoundedQueue.Schedule.RunQueue

/-!
# Runs of a world

A run is a list of happenings, the latest one first: a task does one thing, or is handed work.  Any
list is a run, so whatever holds of `World.after` for every list holds under every interleaving.

* `World.after_induction` is for what holds at first and is kept by every step.  `World.Always` is
  for what is assumed of every world on the way, and `World.always_of_last` for assumptions that are
  inherited by earlier worlds, so that they need only be made of the last one.
* `World.Quiescent` says that no task can move.  It is enough to look at the tasks that are listed
  (`World.quiescent_of_roster`).
* What a step does depends on where its task stands: there is one lemma for each case
  (`World.advance_of_inside`, `World.advance_of_perform` and so on).  A step leaves the other tasks
  where they are (`World.advance_get_of_ne`), and nothing that was reported is forgotten
  (`World.happen_events`).
* `RunQueue.Leads` is what becomes of a run queue when work is handed out and tasks take turns.
  `RunQueue.Leads.exists_run` says that this is one way of choosing the happenings, and
  `RunQueue.exists_run_rounds` that rounds of work are.  So what holds of all runs holds of cases.
-/

set_option autoImplicit false

namespace BoundedQueue

/-- A task that has nothing left to do stands idle. -/
theorem Task.eq_free {ω κ : Type} {task : Task ω κ} (h : task.isUnfinished = false) :
    task = .free := by
  obtain ⟨standing, todo⟩ := task
  cases standing with
  | idle =>
    cases todo with
    | nil => rfl
    | cons => cases h
  | paused | inside => cases h

/-- What can happen to a world. -/
inductive Happening (ω : Type) where
  /-- A task does one thing. -/
  | advance (t : Int)
  /-- A task is handed work. -/
  | handOut (a : Assignment ω)

namespace World

variable {σ ω κ ι ρ : Type}

/-- Gives a list of instructions to a task, unless it has some left. -/
def handOut (w : World σ ω κ ρ) (a : Assignment ω) : World σ ω κ ρ :=
  if (w.tasks.get a.task).isUnfinished then w.report a.task .busy
  else if a.todo.isEmpty then w
  else w.place a.task .idle a.todo

/-- The world after something happened. -/
def happen (m : Machine σ ω κ ι ρ) (w : World σ ω κ ρ) : Happening ω → World σ ω κ ρ
  | .advance t => (w.advance m t).1
  | .handOut a => w.handOut a

/-- The world after a run, whose latest happening comes first. -/
def after (m : Machine σ ω κ ι ρ) (w : World σ ω κ ρ) : List (Happening ω) → World σ ω κ ρ
  | [] => w
  | h :: hs => (w.after m hs).happen m h

/-- Every world of a run has a property, the first and the last one included. -/
def Always (m : Machine σ ω κ ι ρ) (w : World σ ω κ ρ) (P : World σ ω κ ρ → Prop) :
    List (Happening ω) → Prop
  | [] => P w
  | h :: hs => P (w.after m (h :: hs)) ∧ w.Always m P hs

/-- No task can move: each has nothing to do or finds nothing of what it waits for. -/
def Quiescent (m : Machine σ ω κ ι ρ) (w : World σ ω κ ρ) : Prop :=
  ∀ t, (w.advance m t).2 = .idle ∨ ∃ on, (w.advance m t).2 = .blocked on

variable {m : Machine σ ω κ ι ρ} {w : World σ ω κ ρ} {P Q : World σ ω κ ρ → Prop}

@[simp] theorem after_nil : w.after m [] = w := rfl

theorem after_cons (h : Happening ω) (hs : List (Happening ω)) :
    w.after m (h :: hs) = (w.after m hs).happen m h := rfl

theorem after_append (hs ks : List (Happening ω)) :
    w.after m (hs ++ ks) = (w.after m ks).after m hs := by
  induction hs with
  | nil => rfl
  | cons h hs ih => rw [List.cons_append, after_cons, after_cons, ih]

/-- What occurs at a step of a run occurs at the last one, or at one before. -/
theorem exists_advance_cons_iff {P : Int → List (Happening ω) → Prop} {x : Happening ω}
    {hs : List (Happening ω)} :
    (∃ later t earlier, x :: hs = later ++ .advance t :: earlier ∧ P t earlier) ↔
      (∃ t, x = .advance t ∧ P t hs) ∨
        ∃ later t earlier, hs = later ++ .advance t :: earlier ∧ P t earlier := by
  constructor
  · rintro ⟨later, t, earlier, heq, hP⟩
    cases later with
    | nil => cases heq; exact .inl ⟨t, rfl, hP⟩
    | cons y later => cases heq; exact .inr ⟨later, t, earlier, rfl, hP⟩
  · rintro (⟨t, rfl, hP⟩ | ⟨later, t, earlier, rfl, hP⟩)
    · exact ⟨[], t, hs, rfl, hP⟩
    · exact ⟨x :: later, t, earlier, rfl, hP⟩

theorem Always.last {hs : List (Happening ω)} (h : w.Always m P hs) : P (w.after m hs) := by
  cases hs with
  | nil => exact h
  | cons => exact h.1

instance decidableAlways [DecidablePred P] :
    (hs : List (Happening ω)) → Decidable (w.Always m P hs)
  | [] => inferInstanceAs (Decidable (P w))
  | x :: hs =>
    have : Decidable (w.Always m P hs) := decidableAlways hs
    inferInstanceAs (Decidable (P (w.after m (x :: hs)) ∧ w.Always m P hs))

theorem Always.and {hs : List (Happening ω)} (hP : w.Always m P hs) (hQ : w.Always m Q hs) :
    w.Always m (fun v => P v ∧ Q v) hs := by
  induction hs with
  | nil => exact ⟨hP, hQ⟩
  | cons x hs ih => exact ⟨⟨hP.1, hQ.1⟩, ih hP.2 hQ.2⟩

/-- A run in two parts has a property throughout if both parts have. -/
theorem always_append (hs ks : List (Happening ω)) :
    w.Always m P (hs ++ ks) ↔ (w.after m ks).Always m P hs ∧ w.Always m P ks := by
  induction hs with
  | nil => exact ⟨fun h => ⟨h.last, h⟩, And.right⟩
  | cons x hs ih =>
    have hafter : w.after m (x :: (hs ++ ks)) = (w.after m ks).after m (x :: hs) :=
      after_append (x :: hs) ks
    rw [List.cons_append, Always, Always, ih, hafter, and_assoc]

/-- A property that is handed back from one world of a run to the one before it holds throughout, if
it holds at the end. -/
theorem always_of_last
    (hback : ∀ x hs, P (w.after m (x :: hs)) → P (w.after m hs)) {hs : List (Happening ω)}
    (h : P (w.after m hs)) : w.Always m P hs := by
  induction hs with
  | nil => exact h
  | cons x hs ih => exact ⟨h, ih (hback x hs h)⟩

/-- What holds at first and is kept by every step holds at the end of every run. -/
theorem after_induction (hw : P w) (hstep : ∀ v x, P v → P (v.happen m x))
    (hs : List (Happening ω)) : P (w.after m hs) := by
  induction hs with
  | nil => exact hw
  | cons x hs ih => exact hstep _ x ih

/-- Only a task that is listed can move. -/
theorem quiescent_of_roster
    (h : ∀ e ∈ w.tasks, (w.advance m e.1).2 = .idle ∨ ∃ on, (w.advance m e.1).2 = .blocked on) :
    w.Quiescent m := by
  intro t
  rcases w.tasks.mem_or_get_eq_free t with ⟨x, hx⟩ | hfree
  · exact h _ hx
  · exact .inl (by simp only [advance, hfree, Task.free])

/-! ## What handing out work leaves alone -/

@[simp] theorem handOut_shared (a : Assignment ω) : (w.handOut a).shared = w.shared := by
  unfold handOut
  split
  · rfl
  · split <;> rfl

/-- A task that is handed work stood idle before, and it still does. -/
theorem handOut_tasks (a : Assignment ω) :
    (w.handOut a).tasks = w.tasks ∨
      (w.tasks.get a.task) = .free ∧ (w.handOut a).tasks = w.tasks.set a.task ⟨.idle, a.todo⟩ := by
  unfold handOut
  split
  · exact .inl rfl
  · next hfin =>
    split
    · exact .inl rfl
    · exact .inr ⟨Task.eq_free (by simpa using hfin), rfl⟩

theorem handOut_events (a : Assignment ω) :
    (w.handOut a).events = w.events ∨ (w.handOut a).events = ⟨a.task, .busy⟩ :: w.events := by
  unfold handOut
  split
  · exact .inr rfl
  · split <;> exact .inl rfl

/-! ## What a step does -/

section Advance

variable {t : Int} {op : ω} {k : κ} {todo : List (Instruction ω)}

theorem advance_of_inside (m : Machine σ ω κ ι ρ) (h : w.tasks.get t = ⟨.inside op k, todo⟩) :
    w.advance m t = w.settleMove t op todo (m.resume k w.shared) := by
  simp only [advance, h]

theorem advance_of_paused (m : Machine σ ω κ ι ρ) (h : w.tasks.get t = ⟨.paused, todo⟩) :
    w.advance m t = ((w.place t .idle todo).report t .yielded, .ran) := by
  simp only [advance, h]

theorem advance_of_nil (m : Machine σ ω κ ι ρ) (h : w.tasks.get t = ⟨.idle, []⟩) :
    w.advance m t = (w, .idle) := by
  simp only [advance, h]

theorem advance_of_perform (m : Machine σ ω κ ι ρ)
    (h : w.tasks.get t = ⟨.idle, .perform op :: todo⟩) :
    w.advance m t =
      w.settleMove t op todo (m.start (w.tasks.othersOutside t) op w.shared) := by
  simp only [advance, h]

theorem advance_of_yield (m : Machine σ ω κ ι ρ) (h : w.tasks.get t = ⟨.idle, .yield :: todo⟩) :
    w.advance m t = (w.place t .paused todo, .yielded) := by
  simp only [advance, h]

theorem advance_of_unreadable (m : Machine σ ω κ ι ρ) {name : Option String} {fault : String}
    (h : w.tasks.get t = ⟨.idle, .unreadable name fault :: todo⟩) :
    w.advance m t = ((w.place t .idle todo).report t (.unreadable name fault), .ran) := by
  simp only [advance, h]

end Advance

theorem settleMove_shared (w : World σ ω κ ρ) (t : Int) (op : ω) (todo : List (Instruction ω))
    (r : σ × Move κ ι ρ) : (w.settleMove t op todo r).1.shared = r.1 := by
  obtain ⟨shared, move⟩ := r
  cases move <;> rfl

theorem settleMove_get_of_ne {u : Int} (w : World σ ω κ ρ) (t : Int) (op : ω)
    (todo : List (Instruction ω)) (r : σ × Move κ ι ρ) (h : u ≠ t) :
    (w.settleMove t op todo r).1.tasks.get u = w.tasks.get u := by
  obtain ⟨shared, move⟩ := r
  cases move <;> exact Roster.get_set_of_ne _ _ h

/-- A step of one task leaves the others where they are. -/
theorem advance_get_of_ne {u : Int} (m : Machine σ ω κ ι ρ) (w : World σ ω κ ρ) (t : Int)
    (h : u ≠ t) : (w.advance m t).1.tasks.get u = w.tasks.get u := by
  rcases hx : w.tasks.get t with ⟨standing, todo⟩
  cases standing with
  | inside op k => rw [advance_of_inside m hx]; exact settleMove_get_of_ne _ _ _ _ _ h
  | paused => rw [advance_of_paused m hx]; exact Roster.get_set_of_ne _ _ h
  | idle =>
    cases todo with
    | nil => rw [advance_of_nil m hx]
    | cons i todo =>
      cases i with
      | perform op => rw [advance_of_perform m hx]; exact settleMove_get_of_ne _ _ _ _ _ h
      | yield => rw [advance_of_yield m hx]; exact Roster.get_set_of_ne _ _ h
      | unreadable name fault =>
        rw [advance_of_unreadable m hx]; exact Roster.get_set_of_ne _ _ h

theorem settleMove_events (w : World σ ω κ ρ) (t : Int) (op : ω) (todo : List (Instruction ω))
    (r : σ × Move κ ι ρ) : ∃ new, (w.settleMove t op todo r).1.events = new ++ w.events := by
  obtain ⟨shared, move⟩ := r
  cases move with
  | finish result => exact ⟨[_], rfl⟩
  | go | wait | signal => exact ⟨[], rfl⟩

/-- Nothing that was reported is forgotten. -/
theorem happen_events (m : Machine σ ω κ ι ρ) (w : World σ ω κ ρ) (x : Happening ω) :
    ∃ new, (w.happen m x).events = new ++ w.events := by
  cases x with
  | handOut a =>
    rcases w.handOut_events a with h | h
    · exact ⟨[], h⟩
    · exact ⟨[_], h⟩
  | advance t =>
    rw [happen]
    rcases hx : w.tasks.get t with ⟨standing, todo⟩
    cases standing with
    | inside op k => rw [advance_of_inside m hx]; exact settleMove_events _ _ _ _ _
    | paused => rw [advance_of_paused m hx]; exact ⟨[_], rfl⟩
    | idle =>
      cases todo with
      | nil => rw [advance_of_nil m hx]; exact ⟨[], rfl⟩
      | cons i todo =>
        cases i with
        | perform op => rw [advance_of_perform m hx]; exact settleMove_events _ _ _ _ _
        | yield => rw [advance_of_yield m hx]; exact ⟨[], rfl⟩
        | unreadable name fault => rw [advance_of_unreadable m hx]; exact ⟨[_], rfl⟩

/-! ## Rosters stay in order -/

theorem sorted_settleMove (h : w.tasks.Sorted) (t : Int) (op : ω) (todo : List (Instruction ω))
    (r : σ × Move κ ι ρ) : (w.settleMove t op todo r).1.tasks.Sorted := by
  obtain ⟨shared, move⟩ := r
  cases move <;> exact h.set t _

theorem sorted_advance (h : w.tasks.Sorted) (t : Int) : (w.advance m t).1.tasks.Sorted := by
  rcases hx : w.tasks.get t with ⟨standing, todo⟩
  cases standing with
  | inside op k => rw [advance_of_inside m hx]; exact sorted_settleMove h _ _ _ _
  | paused => rw [advance_of_paused m hx]; exact h.set t _
  | idle =>
    cases todo with
    | nil => rw [advance_of_nil m hx]; exact h
    | cons i todo =>
      cases i with
      | perform op => rw [advance_of_perform m hx]; exact sorted_settleMove h _ _ _ _
      | yield => rw [advance_of_yield m hx]; exact h.set t _
      | unreadable name fault => rw [advance_of_unreadable m hx]; exact h.set t _

theorem sorted_happen (h : w.tasks.Sorted) (x : Happening ω) : (w.happen m x).tasks.Sorted := by
  cases x with
  | advance t => exact sorted_advance h t
  | handOut a =>
    rcases w.handOut_tasks a with ht | ⟨-, ht⟩
    · rw [happen, ht]; exact h
    · rw [happen, ht]; exact h.set _ _

theorem sorted_after (h : w.tasks.Sorted) (hs : List (Happening ω)) :
    (w.after m hs).tasks.Sorted :=
  after_induction (P := fun v => v.tasks.Sorted) h (fun _ x hv => sorted_happen hv x) hs

end World

/-! ## The run queue -/

theorem newSince_append {β : Type} (l new : List β) : newSince l (new ++ l) = new.reverse := by
  rw [newSince, List.length_append, Nat.add_sub_cancel, List.take_left]

namespace RunQueue

variable {σ ω κ ι ρ : Type}

theorem world_handOut (s : RunQueue σ ω κ ι ρ) (a : Assignment ω) :
    (s.handOut a).world = s.world.handOut a := by
  unfold handOut World.handOut
  split
  · rfl
  · split <;> rfl

/-- What every hand-out keeps holds after a round of work was handed out. -/
theorem world_foldl_handOut {Q : World σ ω κ ρ → Prop} {s : RunQueue σ ω κ ι ρ}
    {work : List (Assignment ω)} (hQ : ∀ a ∈ work, ∀ w, Q w → Q (w.handOut a)) (hs : Q s.world) :
    Q (work.foldl RunQueue.handOut s).world := by
  induction work generalizing s with
  | nil => exact hs
  | cons a work ih =>
    refine ih (fun b hb => hQ b (List.mem_cons_of_mem _ hb)) ?_
    rw [world_handOut]
    exact hQ a List.mem_cons_self _ hs

variable [DecidableEq ι]

/-- What becomes of a run queue when work is handed out and tasks take turns. -/
inductive Leads (m : Machine σ ω κ ι ρ) (s : RunQueue σ ω κ ι ρ) : RunQueue σ ω κ ι ρ → Prop where
  | refl : Leads m s s
  | handOut {s' : RunQueue σ ω κ ι ρ} (h : Leads m s s') (a : Assignment ω) :
      Leads m s (s'.handOut a)
  | tick {s' : RunQueue σ ω κ ι ρ} (h : Leads m s s') : Leads m s (s'.tick m)

variable {m : Machine σ ω κ ι ρ} {s s' : RunQueue σ ω κ ι ρ}

theorem world_requeue (s : RunQueue σ ω κ ι ρ) (t : Int) (rest : List Int) (turn : Turn ι) :
    (s.requeue t rest turn).world = s.world := by
  unfold requeue
  split
  · rfl
  · rfl
  · rfl
  · rfl
  · split <;> rfl

/-- What becomes of the line does not depend on the world. -/
theorem requeue_withWorld (s : RunQueue σ ω κ ι ρ) (w : World σ ω κ ρ) (t : Int) (rest : List Int)
    (turn : Turn ι) :
    RunQueue.requeue { s with world := w } t rest turn =
      { s.requeue t rest turn with world := w } := by
  cases turn with
  | idle | ran | yielded | blocked => rfl
  | signalled on =>
    simp only [requeue]
    split
    · rfl
    · rfl

/-- A turn of the run queue is a step of the task at its head. -/
theorem world_tick (m : Machine σ ω κ ι ρ) (s : RunQueue σ ω κ ι ρ) :
    (s.tick m).world = s.world ∨ ∃ t, (s.tick m).world = (s.world.advance m t).1 := by
  unfold tick
  split
  · exact .inl rfl
  · next t rest _ => exact .inr ⟨t, world_requeue _ _ _ _⟩

theorem Leads.run (h : Leads m s s') (n : Nat) : Leads m s (s'.run m n) := by
  induction n generalizing s' with
  | zero => exact h
  | succ n ih =>
    rw [RunQueue.run]
    split
    · exact h
    · exact ih h.tick

/-- A round of work leads on. -/
theorem Leads.carryOut (h : Leads m s s') (work : List (Assignment ω)) :
    Leads m s (s'.carryOut m work) := by
  refine Leads.run ?_ _
  induction work generalizing s' with
  | nil => exact h
  | cons a work ih => exact ih (h.handOut a)

/-- **The run queue is one way of choosing what happens.** -/
theorem Leads.exists_run (h : Leads m s s') : ∃ hs, s'.world = s.world.after m hs := by
  induction h with
  | refl => exact ⟨[], rfl⟩
  | handOut _ a ih =>
    obtain ⟨hs, hw⟩ := ih
    exact ⟨.handOut a :: hs, by rw [world_handOut, hw]; rfl⟩
  | @tick s' _ ih =>
    obtain ⟨hs, hw⟩ := ih
    rcases world_tick m s' with ht | ⟨t, ht⟩
    · exact ⟨hs, by rw [ht, hw]⟩
    · exact ⟨.advance t :: hs, by rw [ht, hw]; rfl⟩

/-- A world after rounds of work is one that a run leads to. -/
theorem exists_run_rounds (m : Machine σ ω κ ι ρ) (s : RunQueue σ ω κ ι ρ)
    (rounds : List (List (Assignment ω))) :
    ∃ hs, (rounds.foldl (RunQueue.carryOut m) s).world = s.world.after m hs := by
  suffices hleads : ∀ s', Leads m s s' → Leads m s (rounds.foldl (RunQueue.carryOut m) s') from
    (hleads s .refl).exists_run
  induction rounds with
  | nil => exact fun s' h => h
  | cons work rounds ih => exact fun s' h => ih _ (h.carryOut work)

end RunQueue

end BoundedQueue
