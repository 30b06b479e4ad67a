import BoundedQueue.Proofs.Queue.Calls
import BoundedQueue.Proofs.Queue.Markers
import BoundedQueue.Proofs.Session.Course

/-!
# What a task inside an operation is doing

A task that is inside an operation stands at a phase of the call that the operation makes, and the
call serves the purpose of the operation: `jobs_after`.  So a phase tells what kind of operation a
task is in, and the operation tells at which phases the task can be.

* `Operation.call?` is the call that an operation makes, and `Operation.Serves` lists what the calls
  of an operation are made for.  `Operation.Makes` is the two of them together.
* `World.Regular` is what the worlds of all runs have in common: the tasks are in order, the books
  of the queue within bounds, and every task inside an operation at a job of it.  Nearly everything
  that is proved about a single step is proved of regular worlds, and holds of runs by
  `regular_after`.
* `Regular.stride` and `Regular.step_cases` say what a step of a regular world comes to: a passage,
  a passage at whose remark the logger panics, or nothing that concerns the queue.  `Regular.keeps`
  is the form in which this is used for properties of the queue and of the calls in progress.
-/

set_option autoImplicit false

namespace BoundedQueue

variable {α : Type}

/-! ## Operations and their calls -/

namespace Operation

/-- The call that an operation makes, or that an iteration makes again and again. -/
def call? : Operation α → Option (Call α)
  | enqueue a | send _ a => some (.enqueue a)
  | tryEnqueue a => some (.tryEnqueue a)
  | dequeue | take _ | collect | next _ => some .dequeue
  | register | producer _ => some .register
  | deregister | finish _ | drop _ => some .deregister
  | install stage hook => some (.install stage hook)
  | clear => some .clear
  | capacity | isEmpty | debug | pretty | iter _ | describe _ | trap _ => none

/-- What the calls of an operation are made for. -/
inductive Serves : Operation α → Purpose α → Prop where
  | enqueue (a : α) : Serves (.enqueue a) .plain
  | tryEnqueue (a : α) : Serves (.tryEnqueue a) .attempt
  | dequeue : Serves .dequeue .plain
  | take (n left : Nat) (got : List α) : Serves (.take n) (.gather (some left) got)
  | collect (got : List α) : Serves .collect (.gather none got)
  | register : Serves .register .plain
  | deregister : Serves .deregister .plain
  | install (stage : Stage) (hook : Hook α) : Serves (.install stage hook) .plain
  | clear : Serves .clear .plain
  | producer (handle : String) : Serves (.producer handle) (.producer handle)
  | send (handle : String) (a : α) : Serves (.send handle a) (.send handle)
  | finish (handle : String) : Serves (.finish handle) .plain
  | next (handle : String) : Serves (.next handle) (.next handle)
  | drop (handle : String) : Serves (.drop handle) .drop

namespace Serves

variable {op : Operation α} {purpose : Purpose α} {name : String}

/-- A purpose that names a handle tells the operation. -/
theorem producer_iff (h : op.Serves purpose) : op = .producer name ↔ purpose = .producer name := by
  cases h <;> simp

theorem next_iff (h : op.Serves purpose) : op = .next name ↔ purpose = .next name := by
  cases h <;> simp

end Serves

end Operation

/-- A call that waits with a marker is a deregistration. -/
theorem Call.Visits.eq_deregister {c : Call α} {p : Phase α} {errand : Errand α} (h : c.Visits p)
    (hs : (Spot.phase p).asksFree = some errand)
    (hp : p.bringsMarker = true) : c = .deregister := by
  have he := errand?_of_asksFree hs
  have hmark : errand.entry.isMarker = true := by
    rcases Spot.of_asksFree hs (Multiset.mem_singleton_self p) with rfl | rfl <;> exact hp
  cases c with
  | deregister => rfl
  | enqueue | tryEnqueue => cases he.symm.trans h; cases hmark
  | dequeue =>
    rcases h with h | ⟨-, h⟩
    · cases he.symm.trans h
    · cases hs.symm.trans h
  | register | install | clear => exact h.elim

/-! ## Jobs -/

/-- Whether an operation can be at a job. -/
structure Operation.Makes (op : Operation α) (job : Job α) : Prop where
  visits : ∃ c, op.call? = some c ∧ c.Visits job.phase
  serves : op.Serves job.purpose

/-- An iteration goes on with the calls that it is made of. -/
theorem Operation.Serves.again {op : Operation α} {left left' : Option Nat} {got : List α}
    (h : op.Serves (.gather left got)) (hl : left'.isSome = left.isSome) (got' : List α) :
    op.call? = some .dequeue ∧ op.Serves (.gather left' got') := by
  cases h with
  | take n left got =>
    cases left' with
    | none => cases hl
    | some k => exact ⟨rfl, .take n k _⟩
  | collect got =>
    cases left' with
    | none => exact ⟨rfl, .collect _⟩
    | some k => cases hl

theorem Session.Opens.serves {s : Session α} {alone : Bool} {op : Operation α}
    {purpose : Purpose α} {c : Call α} (h : s.Opens alone op purpose c) :
    op.call? = some c ∧ op.Serves purpose := by
  cases h <;> exact ⟨rfl, by constructor⟩

namespace World

/-- Every task inside an operation is at a job of it. -/
def Jobs (w : Traffic α) : Prop :=
  ∀ t op job todo, w.tasks.get t = ⟨.inside op job, todo⟩ → op.Makes job

variable {w w' : Traffic α} {t : Int} {e : Engagement α}

/-- A task carries out a section of the call that its operation makes. -/
theorem Jobs.reaches (h : w.Jobs) (he : w.engagement? t = some e) :
    (∃ c, e.op.call? = some c ∧ c.Reaches e.spot) ∧ e.op.Serves e.purpose := by
  cases engaged he with
  | inside ht => exact ⟨(h _ _ _ _ ht).visits, (h _ _ _ _ ht).serves⟩
  | opens ht ho =>
    obtain ⟨hc, hs⟩ := (Session.opens_of_opening ho).1.serves
    exact ⟨⟨_, hc, rfl⟩, hs⟩

/-- Tasks stay at their jobs, and one that carries out a section lands at one of its operation. -/
theorem Jobs.landing {q' : Queue α} {move move' : Move (Phase α) Side (Outcome α)}
    {r : Option Remark} {q₁ : Queue α} (h : w.Jobs) (hp : w.shared.queue.Passage e.spot r q₁ move)
    (hs : Stride w w' t e q' move')
    (hmove : move' = move ∨ ∃ text, move' = .finish (.panicked text)) : w'.Jobs := by
  obtain ⟨⟨c, hc, hreach⟩, hserves⟩ := h.reaches hs.engaged
  obtain ⟨x, new, hx, ht, -⟩ := hs.landing
  intro u op job todo hu
  rw [ht, Roster.get_set] at hu
  split at hu
  · cases hx with
    | stay hphases =>
      cases hu
      rcases hmove with rfl | ⟨text, rfl⟩
      · exact ⟨⟨c, hc, hp.visits hreach hphases⟩, hserves⟩
      · simp [Move.phases] at hphases
    | finish => cases hu
    | @again left left' got b hpurpose hl =>
      cases hu
      rw [hpurpose] at hserves
      obtain ⟨hcall, hserves⟩ := hserves.again hl (b :: got)
      exact ⟨⟨_, hcall, .inl rfl⟩, hserves⟩
  · exact h _ _ _ _ hu

theorem Course.jobs (h : Course w w') (hw : w.Jobs) : w'.Jobs := by
  cases h with
  | quiet h => exact fun u op job todo hu => hw u op job todo (h.get_of_inside hu)
  | passage hp hs => exact hw.landing hp hs (.inl rfl)
  | sprung hr hp hs => exact hw.landing hp hs (.inr ⟨_, rfl⟩)

/-- **Every task inside an operation is at a job of it, in every run.** -/
theorem jobs_after {capacity : Nat} (onEnqueue onDequeue : Option (Hook α)) (log : Logbook)
    (hpos : 0 < capacity) (hmax : capacity ≤ Semaphore.maxPermits)
    (hs : List (Happening (Operation α))) :
    ((Traffic.fresh capacity onEnqueue onDequeue log).after Session.machine hs).Jobs := by
  induction hs with
  | nil => intro t op job todo h; cases h
  | cons x hs ih => exact (course_after onEnqueue onDequeue log hpos hmax x hs).jobs ih

/-- What the worlds of all runs have in common, whatever fails or panics. -/
structure Regular (w : Traffic α) : Prop where
  sorted : w.tasks.Sorted
  within : w.shared.queue.Within w.phases
  jobs : w.Jobs

theorem regular_after {capacity : Nat} (onEnqueue onDequeue : Option (Hook α)) (log : Logbook)
    (hpos : 0 < capacity) (hmax : capacity ≤ Semaphore.maxPermits)
    (hs : List (Happening (Operation α))) :
    ((Traffic.fresh capacity onEnqueue onDequeue log).after Session.machine hs).Regular :=
  ⟨sorted_fresh onEnqueue onDequeue log capacity hs,
    within_after onEnqueue onDequeue log hpos hmax hs,
    jobs_after onEnqueue onDequeue log hpos hmax hs⟩

/-- Whatever happens to a regular world leaves it regular. -/
theorem Regular.happen (h : w.Regular) (x : Happening (Operation α)) :
    (w.happen Session.machine x).Regular where
  sorted := sorted_happen h.sorted x
  within := (course_happen h.sorted h.within x).within h.sorted h.within
  jobs := (course_happen h.sorted h.within x).jobs h.jobs

/-- Nothing stands in the way of a section that a task carries out next. -/
theorem Regular.workable (h : w.Regular) (he : w.engagement? t = some e) :
    w.shared.queue.Workable e.spot := by
  have hwithin := h.within
  rw [phases_of_engagement h.sorted he] at hwithin
  exact hwithin.workable

/-- Who is to clear the queue is at the opening of the clearing, which has no other section. -/
theorem Regular.op_eq_clear_iff (h : w.Regular) (he : w.engagement? t = some e) :
    e.op = .clear ↔ e.spot = .opening .clear := by
  obtain ⟨⟨c, hc, hreach⟩, -⟩ := h.jobs.reaches he
  constructor
  · intro hop
    rw [hop] at hc
    cases hc
    cases hspot : e.spot with
    | opening c' => rw [hspot] at hreach; exact congrArg Spot.opening hreach
    | phase p => rw [hspot] at hreach; exact hreach.elim
  · intro hspot
    rw [hspot] at hreach
    cases hreach
    cases hop : e.op with
    | clear => rfl
    | _ => rw [hop] at hc; cases hc

/-- What the step of a task comes to that is to carry out a section: a passage, or a passage at
whose remark the logger panics. -/
theorem Regular.stride (h : w.Regular) (he : w.engagement? t = some e) :
    ∃ r q' move, w.shared.queue.Passage e.spot r q' move ∧
      (Stride w (w.advance Session.machine t).1 t e q' move ∨
        r ≠ none ∧ ∃ bufferPoisoned producersPoisoned,
          Stride w (w.advance Session.machine t).1 t e
            { q' with bufferPoisoned := bufferPoisoned, producersPoisoned := producersPoisoned }
            (.finish (.panicked Logbook.panicText))) := by
  obtain ⟨r, q', move, hp, hsec⟩ := exists_passage h.sorted h.within he
  refine ⟨r, q', move, hp, ?_⟩
  rcases q'.remarked_cases move r with ⟨log, hr⟩ | ⟨log, b, p, hne, hr⟩
  · obtain ⟨⟨-, hmove, hqueue, hland⟩, -⟩ := stride_advance he (hsec.trans hr)
    obtain ⟨log', hq⟩ := hqueue
    exact .inl ⟨he, hmove, ⟨log', hq⟩, hland⟩
  · obtain ⟨⟨-, hmove, hqueue, hland⟩, -⟩ := stride_advance he (hsec.trans hr)
    obtain ⟨log', hq⟩ := hqueue
    exact .inr ⟨hne, b, p, he, hmove, ⟨log', hq⟩, hland⟩

/-- What a step of a task comes to: nothing that concerns the queue, a passage, or a passage at
whose remark the logger panics. -/
theorem Regular.step_cases (h : w.Regular) (t : Int) :
    w.engagement? t = none ∧ Quiet w (w.advance Session.machine t).1 ∨
      ∃ e r q' move, w.engagement? t = some e ∧ w.shared.queue.Passage e.spot r q' move ∧
        (Stride w (w.advance Session.machine t).1 t e q' move ∨
          r ≠ none ∧ ∃ bufferPoisoned producersPoisoned,
            Stride w (w.advance Session.machine t).1 t e
              { q' with bufferPoisoned := bufferPoisoned, producersPoisoned := producersPoisoned }
              (.finish (.panicked Logbook.panicText))) := by
  rcases he : w.engagement? t with - | e
  · exact .inl ⟨rfl, (quiet_advance he).1⟩
  · obtain ⟨r, q', move, hp, hs⟩ := h.stride he
    exact .inr ⟨e, r, q', move, rfl, hp, hs⟩

/-- What a step of a task keeps: it is enough to look at passages, if it does not matter what is
logged or poisoned, whether a call is given up, and whether one asks for an item. -/
theorem Regular.keeps {I : Queue α → Multiset (Phase α) → Prop} (h : w.Regular)
    (hI : I w.shared.queue w.phases)
    (hlog : ∀ q log phases, I q phases → I { q with log := log } phases)
    (hask : ∀ q phases, I q phases → I q ({.askFilled} + phases))
    (hdrop : ∀ q bufferPoisoned producersPoisoned phases others, I q (phases + others) →
      I { q with bufferPoisoned := bufferPoisoned, producersPoisoned := producersPoisoned } others)
    (hstep : ∀ e r q' move others, w.engagement? t = some e →
      w.phases = e.spot.phases + others → (e.spot = .opening .clear → others = 0) →
      w.shared.queue.Passage e.spot r q' move → I q' (move.phases + others)) :
    I (w.advance Session.machine t).1.shared.queue (w.advance Session.machine t).1.phases := by
  rcases h.step_cases t with ⟨-, hquiet⟩ | ⟨e, r, q', move, he, hp, hs | ⟨-, b, p, hs⟩⟩
  · obtain ⟨log, hq⟩ := hquiet.queue_eq
    rw [hq, hquiet.phases_eq h.sorted]
    exact hlog _ _ _ hI
  · exact hs.keeps h.sorted hlog hask (hstep e r q' move _ he (hs.before h.sorted) hs.alone hp)
  · refine hs.keeps h.sorted hlog hask ?_
    rw [Move.phases, zero_add]
    exact hdrop _ b p _ _ (hstep e r q' move _ he (hs.before h.sorted) hs.alone hp)

end World

end BoundedQueue
