import BoundedQueue.Proofs.Schedule.Order
import BoundedQueue.Proofs.Schedule.Waiting
import BoundedQueue.Semaphore.Session

/-!
# Rounds of requests to a semaphore

Like the calls on a queue, the requests to a single semaphore are cut into sections.  `Passage`
lists what can come of a section, guards included, and `passage_sectionAt` says that the list is
complete.  Every request is through after at most three turns, so that a round always ends.

* `World.request?` is the section that a task carries out next, if it carries one out.  A step of
  another task is one that `Rests`, and leaves the semaphore alone.
* `World.winding` says that requests come to an end, whatever overflows or is reset, and
  `Case.ready_afterRounds` that nobody can run between two rounds.
* `World.Tame.minding` says that requests mind the permits as long as these are counted.  That is
  not so any more once a release was one too many (`Overflowed`), because then a woken task fails
  instead of taking its permit, nor if the number of permits is set by a request, which wakes nobody
  (`Case.NeverResets` says that it is not).
* `Case.atRest_afterRounds` is what follows: between two rounds, whoever waits does so for permits
  of which there are none.
-/

set_option autoImplicit false

namespace BoundedQueue

namespace Semaphore

/-- A world of tasks on a semaphore. -/
abbrev Traffic : Type := World Session Operation Place Answer

/-- A run queue for tasks on a semaphore. -/
abbrev Tasks : Type := RunQueue Session Operation Place Unit Answer

/-- The permits of a semaphore, for the requests to it. -/
def supply : Supply Session Place Unit where
  permits s _ := s.semaphore.permits
  awaits
    | .awaiting => some ()
    | .released => none

/-! ## Passages -/

/-- Where the next section of a request lies. -/
inductive Spot where
  /-- At the beginning of a request. -/
  | opening (op : Operation)
  /-- At a place of a request in progress. -/
  | place (k : Place)

namespace Spot

/-- Whether a permit is asked for at a spot, and waited for if there is none. -/
def asks : Spot → Bool
  | opening .acquire | place .awaiting => true
  | _ => false

/-- What a request at a spot waits for; at its opening, nothing. -/
def awaits : Spot → Option Unit
  | opening _ => none
  | place k => supply.awaits k

/-- A bound on the turns that are left at a spot. -/
def effort : Spot → Nat
  | opening op => machine.demand op
  | place k => machine.effort k

end Spot

namespace Session

/-- The section of a request at a spot. -/
def sectionAt (s : Session) : Spot → Step
  | .opening op => s.start op
  | .place k => s.resume k

/-- What can come of the section at a spot: the session afterwards, and the move. -/
inductive Passage (s : Session) : Spot → Session → Move Place Unit Answer → Prop where
  | granted {spot : Spot} (ha : spot.asks = true) (hs : s.semaphore.poisoned = false)
      (hp : 0 < s.semaphore.permits) :
      Passage s spot
        (s.enter (.taken 1) { s.semaphore with permits := s.semaphore.permits - 1 })
        (.finish .done)
  | waits {spot : Spot} (ha : spot.asks = true) (hs : s.semaphore.poisoned = false)
      (h0 : s.semaphore.permits = 0) : Passage s spot s (.wait () .awaiting)
  | tried (hs : s.semaphore.poisoned = false) (hp : 0 < s.semaphore.permits) :
      Passage s (.opening .tryAcquire)
        (s.enter (.taken 1) { s.semaphore with permits := s.semaphore.permits - 1 })
        (.finish (.flag true))
  | triedInVain (hs : s.semaphore.poisoned = false) (h0 : s.semaphore.permits = 0) :
      Passage s (.opening .tryAcquire) s (.finish (.flag false))
  | released (hs : s.semaphore.poisoned = false) (hp : s.semaphore.permits ≠ maxPermits) :
      Passage s (.opening .release)
        (s.enter .returned { s.semaphore with permits := s.semaphore.permits + 1 })
        (.signal () .released)
  | overflowed (hs : s.semaphore.poisoned = false) (hp : s.semaphore.permits = maxPermits) :
      Passage s (.opening .release) { s with semaphore := { s.semaphore with poisoned := true } }
        (.finish (.panicked overflowText))
  | reset (permits : Nat) (hs : s.semaphore.poisoned = false) :
      Passage s (.opening (.reset permits))
        (s.enter (.reset permits) { s.semaphore with permits := permits }) (.finish .done)
  | drained (hs : s.semaphore.poisoned = false) :
      Passage s (.opening .drain)
        (s.enter (.taken s.semaphore.permits) { s.semaphore with permits := 0 })
        (.finish (.number s.semaphore.permits))
  | refused {spot : Spot} (hspot : spot ≠ .place .released) (hs : s.semaphore.poisoned = true) :
      Passage s spot { s with log := s.log.write s.semaphore.complaint }
        (.finish (if s.log.springs s.semaphore.complaint then .panicked Logbook.panicText
          else .failed s.semaphore.error))
  | returned : Passage s (.place .released) s (.finish .done)

theorem passage_acquire (s : Session) {spot : Spot} (ha : spot.asks = true) :
    Passage s spot s.acquire.1 s.acquire.2 := by
  rw [acquire, take]
  by_cases hs : s.semaphore.poisoned = true
  · rw [if_pos hs]
    exact .refused (by rintro rfl; cases ha) hs
  · rw [if_neg hs]
    have hs : s.semaphore.poisoned = false := by simpa using hs
    by_cases h0 : s.semaphore.permits = 0
    · rw [if_pos h0]
      exact .waits ha hs h0
    · rw [if_neg h0]
      exact .granted ha hs (Nat.pos_of_ne_zero h0)

theorem passage_tryAcquire (s : Session) :
    Passage s (.opening .tryAcquire) s.tryAcquire.1 s.tryAcquire.2 := by
  rw [tryAcquire, take]
  by_cases hs : s.semaphore.poisoned = true
  · rw [if_pos hs]
    exact .refused nofun hs
  · rw [if_neg hs]
    have hs : s.semaphore.poisoned = false := by simpa using hs
    by_cases h0 : s.semaphore.permits = 0
    · rw [if_pos h0]
      exact .triedInVain hs h0
    · rw [if_neg h0]
      exact .tried hs (Nat.pos_of_ne_zero h0)

theorem passage_release (s : Session) :
    Passage s (.opening .release) s.release.1 s.release.2 := by
  rw [release, give]
  by_cases hs : s.semaphore.poisoned = true
  · rw [if_pos hs]
    exact .refused nofun hs
  · rw [if_neg hs]
    have hs : s.semaphore.poisoned = false := by simpa using hs
    by_cases hp : s.semaphore.permits = maxPermits
    · rw [if_pos hp]
      exact .overflowed hs hp
    · rw [if_neg hp]
      exact .released hs hp

theorem passage_reset (s : Session) (permits : Nat) :
    Passage s (.opening (.reset permits)) (s.reset permits).1 (s.reset permits).2 := by
  rw [reset, reset?]
  by_cases hs : s.semaphore.poisoned = true
  · rw [if_pos hs]
    exact .refused nofun hs
  · rw [if_neg hs]
    exact .reset permits (by simpa using hs)

theorem passage_drain (s : Session) :
    Passage s (.opening .drain) s.drain.1 s.drain.2 := by
  rw [drain]
  by_cases hs : s.semaphore.poisoned = true
  · rw [if_pos hs]
    exact .refused nofun hs
  · rw [if_neg hs]
    exact .drained (by simpa using hs)

/-- **Every section is one of the listed passages.** -/
theorem passage_sectionAt (s : Session) (spot : Spot) :
    Passage s spot (s.sectionAt spot).1 (s.sectionAt spot).2 := by
  cases spot with
  | opening op =>
    cases op with
    | acquire => exact s.passage_acquire rfl
    | tryAcquire => exact s.passage_tryAcquire
    | release => exact s.passage_release
    | reset permits => exact s.passage_reset permits
    | drain => exact s.passage_drain
  | place k =>
    cases k with
    | awaiting => exact s.passage_acquire rfl
    | released => exact .returned

variable {s s' : Session} {spot : Spot} {move : Move Place Unit Answer}

/-- A passage leaves fewer turns to do than it finds, and pays for those of whom it wakes. -/
theorem Passage.cost_le (h : Passage s spot s' move) : machine.cost move ≤ spot.effort := by
  cases h with
  | waits ha => cases spot <;> simp [Machine.cost, Spot.effort, machine]
  | granted | refused => cases spot <;> simp [Machine.cost, Spot.effort, machine]
  | _ => simp [Machine.cost, Spot.effort, machine]

/-- A passage minds the permits, unless it sets their number, or refuses one to a task that was
woken for it. -/
theorem Passage.minds (h : Passage s spot s' move)
    (hs : s.semaphore.poisoned = true → spot.awaits = none)
    (hreset : ∀ permits, spot ≠ .opening (.reset permits)) :
    supply.Minds spot.awaits s s' move := by
  cases h with
  | granted ha _ hp =>
    refine .finish fun _ => ?_
    show s.semaphore.permits - 1 + _ ≤ s.semaphore.permits
    split <;> omega
  | waits ha _ h0 => exact .wait rfl h0 (fun _ _ => rfl) fun _ => Nat.le_refl _
  | tried => exact .finish fun _ => Nat.sub_le _ _
  | drained => exact .finish fun _ => Nat.zero_le _
  | released => exact .signal rfl rfl fun _ => Nat.le_refl _
  | triedInVain | overflowed | returned => exact .finish fun _ => Nat.le_refl _
  | reset permits => exact absurd rfl (hreset permits)
  | refused _ hp =>
    rw [hs hp]
    exact .finish fun _ => Nat.le_refl _

/-- Only a release that is one too many poisons the semaphore, and it panics. -/
theorem Passage.poisoned_cases (h : Passage s spot s' move)
    (hs : s'.semaphore.poisoned = true) : s.semaphore.poisoned = true ∨
      spot = .opening .release ∧ s.semaphore.permits = maxPermits ∧
        move = .finish (.panicked overflowText) := by
  cases h with
  | overflowed _ hp => exact .inr ⟨rfl, hp, rfl⟩
  | _ => exact .inl hs

/-- A section that leaves the semaphore poisoned is the last one of its request. -/
theorem Passage.finish_of_poisoned (h : Passage s spot s' move)
    (hs : s'.semaphore.poisoned = true) : ∃ a, move = .finish a := by
  cases h with
  | waits _ hs' | released hs' => cases hs'.symm.trans hs
  | _ => exact ⟨_, rfl⟩

end Session

/-! ## Worlds of tasks on a semaphore -/

/-- A release has been one too many. -/
def Overflowed (w : Traffic) : Prop :=
  ∃ t, ⟨t, .completed .release (.panicked overflowText)⟩ ∈ w.events

/-- Where no answer is a panic, no release was one too many. -/
theorem not_overflowed_of_all {w : Traffic}
    (h : (w.events.all fun e =>
      match e.what with
      | .completed _ (.panicked _) => false
      | _ => true) = true) : ¬Overflowed w := by
  rintro ⟨t, ht⟩
  cases List.all_eq_true.1 h _ ht

/-- Whether a request sets the number of permits. -/
def Operation.isReset : Operation → Bool
  | reset _ => true
  | _ => false

/-- The section of a request that a task carries out next. -/
structure Request where
  op : Operation
  spot : Spot
  /-- What the task has left to do after the request. -/
  todo : List (Instruction Operation)

/-- A step of task `t` that is not about the semaphore: none of its requests is answered, and
afterwards it is in none. -/
structure Rests (w w' : Traffic) (t : Int) : Prop where
  shared_eq : w'.shared = w.shared
  outside : (w'.tasks.get t).isInside = false
  new : ∃ new : List (Occurrence Operation Answer), (∀ op a, .completed op a ∉ new) ∧
    w'.events = new.map (Event.mk t) ++ w.events

/-- Nobody is going to set the number of permits, and only a release that was one too many has
poisoned the semaphore. -/
structure Tame (w : Traffic) : Prop where
  sorted : w.tasks.Sorted
  ahead : ∀ t, ∀ op ∈ (w.tasks.get t).ahead, op.isReset = false
  overflowed : w.shared.semaphore.poisoned = true → Overflowed w

section Worlds

variable {w : Traffic} {t : Int}

theorem Overflowed.happen (h : Overflowed w) (x : Happening Operation) :
    Overflowed (w.happen machine x) := by
  obtain ⟨t, ht⟩ := h
  obtain ⟨new, hnew⟩ := World.happen_events machine w x
  exact ⟨t, hnew ▸ List.mem_append_right _ ht⟩

/-- The section that a task carries out next, if it carries one out. -/
def request? (w : Traffic) (t : Int) : Option Request :=
  match w.tasks.get t with
  | ⟨.inside op k, todo⟩ => some ⟨op, .place k, todo⟩
  | ⟨.idle, .perform op :: todo⟩ => some ⟨op, .opening op, todo⟩
  | _ => none

theorem advance_of_request {r : Request} (h : request? w t = some r) :
    w.advance machine t = w.settleMove t r.op r.todo (w.shared.sectionAt r.spot) := by
  unfold request? at h
  split at h
  · next hx => cases h; exact World.advance_of_inside machine hx
  · next hx => cases h; exact World.advance_of_perform machine hx
  · cases h

theorem awaits_of_request {r : Request} (h : request? w t = some r) :
    (w.tasks.get t).awaits supply = r.spot.awaits := by
  unfold request? at h
  split at h
  · next hx => cases h; rw [hx]; rfl
  · next hx => cases h; rw [hx]; rfl
  · cases h

theorem op_of_request {r : Request} (h : request? w t = some r) {op : Operation}
    (hspot : r.spot = .opening op) : r.op = op := by
  unfold request? at h
  split at h
  · cases h; cases hspot
  · cases h; cases hspot; rfl
  · cases h

/-- A step of a task that carries out no section leaves the semaphore alone. -/
theorem rests_of_no_request (h : request? w t = none) : Rests w (w.advance machine t).1 t := by
  unfold request? at h
  have hget (x : Task Operation Place) : (w.tasks.set t x).get t = x := Roster.get_set_self _ _ _
  rcases hx : w.tasks.get t with ⟨standing, todo⟩
  rw [hx] at h
  rcases standing with - | - | ⟨op, k⟩
  · rcases todo with - | ⟨op | _ | ⟨name, fault⟩, todo⟩
    · rw [World.advance_of_nil machine hx]
      exact ⟨rfl, by rw [hx]; rfl, [], nofun, rfl⟩
    · cases h
    · rw [World.advance_of_yield machine hx]
      exact ⟨rfl, congrArg _ (hget _), [], nofun, rfl⟩
    · rw [World.advance_of_unreadable machine hx]
      exact ⟨rfl, congrArg _ (hget _), [.unreadable name fault], by simp, rfl⟩
  · rw [World.advance_of_paused machine hx]
    exact ⟨rfl, congrArg _ (hget _), [.yielded], by simp, rfl⟩
  · cases h

/-- A step of a task leaves the semaphore alone, or carries out one section. -/
theorem shared_advance (w : Traffic) (t : Int) :
    (w.advance machine t).1.shared = w.shared ∨
      ∃ r, request? w t = some r ∧
        (w.advance machine t).1.shared = (w.shared.sectionAt r.spot).1 := by
  rcases hr : request? w t with - | r
  · exact .inl (rests_of_no_request hr).shared_eq
  · exact .inr ⟨r, rfl, by rw [advance_of_request hr, World.settleMove_shared]⟩

/-- A request that ends in a section is answered, and its task is in no other one. -/
theorem answered_of_finish {r : Request} (hr : request? w t = some r) {a : Answer}
    (hmove : (w.shared.sectionAt r.spot).2 = .finish a) :
    (w.advance machine t).1.events = ⟨t, .completed r.op a⟩ :: w.events ∧
      ((w.advance machine t).1.tasks.get t).isInside = false := by
  rw [advance_of_request hr]
  generalize w.shared.sectionAt r.spot = sec at hmove
  obtain ⟨s', move⟩ := sec
  obtain rfl := hmove
  exact ⟨rfl, congrArg Task.isInside (Roster.get_set_self _ _ _)⟩

/-- Only a release that is one too many poisons the semaphore. -/
theorem overflowed_advance (h : w.shared.semaphore.poisoned = true → Overflowed w)
    (hs : (w.advance machine t).1.shared.semaphore.poisoned = true) :
    Overflowed (w.advance machine t).1 := by
  rcases shared_advance w t with hsame | ⟨r, hr, hsec⟩
  · rw [hsame] at hs
    exact (h hs).happen (.advance t)
  · rw [hsec] at hs
    rcases (w.shared.passage_sectionAt r.spot).poisoned_cases hs with hs | ⟨hspot, -, hmove⟩
    · exact (h hs).happen (.advance t)
    · obtain ⟨hevents, -⟩ := answered_of_finish hr hmove
      rw [op_of_request hr hspot] at hevents
      exact ⟨t, hevents ▸ List.mem_cons_self⟩

/-- **Requests come to an end**: no section leaves as many turns to do as it finds. -/
theorem winding (w : Traffic) : w.Winding machine where
  start _ op :=
    Nat.add_le_add_left (w.shared.passage_sectionAt (.opening op)).cost_le _
  resume _ _ k _ _ :=
    Nat.add_le_add_left (w.shared.passage_sectionAt (.place k)).cost_le _

theorem Tame.ofShared (semaphore : Semaphore) (log : Logbook) (hs : semaphore.poisoned = false) :
    Tame (.ofShared (.fresh semaphore log)) where
  sorted := Roster.sorted_empty
  ahead _ _ h := absurd h List.not_mem_nil
  overflowed h := by
    have h : semaphore.poisoned = true := h
    rw [hs] at h
    cases h

theorem Tame.advance (h : Tame w) (t : Int) : Tame (w.advance machine t).1 where
  sorted := World.sorted_advance h.sorted t
  ahead u op hop := by
    obtain ⟨new, hnew⟩ := World.advance_proceeds machine w t u
    refine h.ahead u op ?_
    rw [← List.append_nil (Task.ahead _), hnew.ahead_eq]
    exact List.mem_append_right _ hop
  overflowed := overflowed_advance h.overflowed

theorem Tame.handOut {a : Assignment Operation} (h : Tame w)
    (ha : ∀ op ∈ a.todo.filterMap Instruction.op?, op.isReset = false) :
    Tame (w.handOut a) where
  sorted := World.sorted_happen (m := machine) h.sorted (.handOut a)
  ahead u op hop := by
    have hahead := (World.handOut_proceeds w a u).ahead_eq
    rw [List.nil_append] at hahead
    rw [← hahead, List.mem_append, World.gives] at hop
    rcases hop with hop | hop
    · exact h.ahead u op hop
    · split at hop
      · exact ha op hop
      · cases hop
  overflowed hs := by
    rw [World.handOut_shared] at hs
    exact (h.overflowed hs).happen (.handOut a)

/-- Requests mind the permits if no task was woken for one that it is going to be refused. -/
theorem Tame.minding_of_poisoned (h : Tame w)
    (hw : w.shared.semaphore.poisoned = true → ∀ t, (w.tasks.get t).awaits supply = none) :
    w.Minding machine supply := by
  refine ⟨fun t op todo ht => .inl ?_, fun t op k todo ht => ?_⟩
  · refine (w.shared.passage_sectionAt (.opening op)).minds (fun _ => rfl) fun permits hop => ?_
    cases hop
    have hnot := h.ahead t (.reset permits) (by rw [ht]; exact List.mem_cons_self)
    cases hnot
  · refine (w.shared.passage_sectionAt (.place k)).minds (fun hs => ?_) nofun
    have hnone := hw hs t
    rwa [ht] at hnone

/-- **Requests mind the permits** while these are counted. -/
theorem Tame.minding (h : Tame w) (hw : ¬Overflowed w) : w.Minding machine supply :=
  h.minding_of_poisoned fun hs => absurd (h.overflowed hs) hw

end Worlds

/-! ## Cases -/

namespace Case

/-- No task is told to set the number of permits. -/
def NeverResets (rounds : List (List (Assignment Operation))) : Prop :=
  ∀ work ∈ rounds, ∀ a ∈ work, ∀ op ∈ a.todo.filterMap Instruction.op?, op.isReset = false

instance (rounds : List (List (Assignment Operation))) : Decidable (NeverResets rounds) :=
  inferInstanceAs (Decidable (∀ work ∈ rounds, ∀ a ∈ work,
    ∀ op ∈ a.todo.filterMap Instruction.op?, op.isReset = false))

/-- The run queue after rounds of work. -/
def afterRounds (s : Tasks) (rounds : List (List (Assignment Operation))) : Tasks :=
  rounds.foldl (RunQueue.carryOut machine) s

theorem afterRounds_concat (s : Tasks) (rounds : List (List (Assignment Operation)))
    (work : List (Assignment Operation)) :
    afterRounds s (rounds ++ [work]) = (afterRounds s rounds).carryOut machine work := by
  rw [afterRounds, List.foldl_append]
  rfl

variable {s : Tasks} {work : List (Assignment Operation)}

/-- A round goes on until nobody can run, whatever overflows or is reset. -/
theorem ready_carryOut (hs : s.world.tasks.Sorted) (work : List (Assignment Operation)) :
    (s.carryOut machine work).ready = [] := by
  have hgiven : (work.foldl RunQueue.handOut s).world.tasks.Sorted :=
    RunQueue.world_foldl_handOut (Q := fun w => w.tasks.Sorted)
      (fun a _ w hw => World.sorted_happen (m := machine) hw (.handOut a)) hs
  refine RunQueue.ready_settle (P := fun s => s.world.tasks.Sorted)
    (fun s hs => ?_) (fun s hs => ⟨hs, winding _⟩) hgiven
  exact RunQueue.world_iterate (Q := fun w => w.tasks.Sorted)
    (fun _ t hw => World.sorted_advance (m := machine) hw t) hs 1

/-- Between two rounds nobody can run. -/
theorem ready_afterRounds (c : Case) (rounds : List (List (Assignment Operation))) :
    (afterRounds c.initial rounds).ready = [] := by
  induction rounds using List.reverseRecOn with
  | nil => rfl
  | append_singleton rounds work _ =>
    obtain ⟨hs, hrun⟩ := RunQueue.exists_run_rounds machine c.initial rounds
    rw [afterRounds_concat]
    refine ready_carryOut ?_ work
    rw [afterRounds, hrun]
    exact World.sorted_after Roster.sorted_empty hs

theorem Tame.foldl_handOut (htame : Tame s.world) (hreset : NeverResets [work]) :
    Tame (work.foldl RunQueue.handOut s).world :=
  RunQueue.world_foldl_handOut (fun a ha _ hw => hw.handOut (hreset work (.head _) a ha)) htame

/-- As long as the permits are counted, there is order at every point of a round. -/
theorem orderly_iterate (htame : Tame s.world) (hrest : ¬Overflowed s.world → s.AtRest supply)
    (hreset : NeverResets [work]) {n : Nat}
    (hn : ¬Overflowed ((RunQueue.tick machine)^[n] (work.foldl RunQueue.handOut s)).world) :
    ((RunQueue.tick machine)^[n] (work.foldl RunQueue.handOut s)).Orderly supply := by
  -- what has overflowed at one point is overflowed at all later ones
  have hbefore (k : Nat) (hk : k ≤ n) :
      ¬Overflowed ((RunQueue.tick machine)^[k] (work.foldl RunQueue.handOut s)).world := by
    intro h
    have hlater := RunQueue.world_iterate (Q := Overflowed) (m := machine)
      (fun _ t hw => hw.happen (.advance t)) h (n - k)
    rw [← Function.iterate_add_apply, Nat.sub_add_cancel hk] at hlater
    exact hn hlater
  have hgiven : ¬Overflowed s.world := fun h => hbefore 0 n.zero_le
    (RunQueue.world_foldl_handOut (fun a _ _ hw => hw.happen (.handOut a)) h)
  refine ((hrest hgiven).orderly_given work).iterate fun k hk => ?_
  exact Tame.minding (RunQueue.world_iterate (fun _ t hw => hw.advance t)
    (Tame.foldl_handOut htame hreset) k) (hbefore k hk.le)

/-- **Between two rounds a case is at rest** if no release was one too many: whoever waits does so
for permits of which there are none. -/
theorem atRest_afterRounds (c : Case) {rounds : List (List (Assignment Operation))}
    (hreset : NeverResets rounds) : Tame (afterRounds c.initial rounds).world ∧
      (¬Overflowed (afterRounds c.initial rounds).world →
        (afterRounds c.initial rounds).AtRest supply) := by
  induction rounds using List.reverseRecOn with
  | nil => exact ⟨.ofShared _ _ rfl, fun _ => RunQueue.atRest_ofShared _ _⟩
  | append_singleton rounds work ih =>
    obtain ⟨htame, hrest⟩ := ih fun work hwork => hreset work (List.mem_append_left _ hwork)
    have hwork : NeverResets [work] := fun _ h => hreset _ (List.mem_append_right _ h)
    have hend := ready_carryOut htame.sorted work
    rw [afterRounds_concat]
    rw [RunQueue.carryOut, RunQueue.settle, RunQueue.run_eq_iterate] at hend ⊢
    exact ⟨RunQueue.world_iterate (fun _ t hw => hw.advance t) (Tame.foldl_handOut htame hwork) _,
      fun h => ⟨orderly_iterate htame hrest hwork h, hend⟩⟩

end Case

end Semaphore

end BoundedQueue
