import BoundedQueue.Proofs.Semaphore.Rounds

/-!
# The count of a semaphore

What requests do to the number of permits can be told from outside: from their answers, and for a
release from the turn in which it wakes a waiter.  `changes` reads it off a run, and
`permits_counted` says that the count is what it adds up to since the permits were last set.

* The semaphore of a session keeps a ledger of what is done to it.  `Passage.balanced` says that the
  count is what the ledger adds up to, section by section, and `ledger_after` that the ledger is
  what is seen from outside; neither mentions the other.
* `Kept` is what holds in every run that begins without a trap for the logger, since no request sets
  one (`kept_after`).
* A release at the largest count panics under the lock (`Kept.overflow`).  Afterwards the semaphore
  is `Shut`: the count stays, and every request fails in the next turn of its task, whether it
  begins only then or waits, or was woken for a permit.  The exception is a release that had
  returned its permit before: all that is left of it is to answer, and it does
  (`done_after_overflow`).
-/

set_option autoImplicit false

namespace BoundedQueue

namespace Semaphore

/-! ## Changes -/

/-- What a request did to the number of permits that was given an answer, unless it is a release. -/
def Operation.change? : Operation → Answer → Option Change
  | .acquire, .done | .tryAcquire, .flag true => some (.taken 1)
  | .drain, .number n => some (.taken n)
  | .reset permits, .done => some (.reset permits)
  | _, _ => none

/-- What is done to the number of permits in the next step of a task. -/
def changed (w : Traffic) (t : Int) : List Change :=
  let next := w.advance machine t
  (match next.2 with
    | .signalled _ => [.returned]
    | _ => []) ++
  (newSince w.events next.1.events).reverse.filterMap fun e =>
    match e.what with
    | .completed op a => op.change? a
    | _ => none

/-- What is done to the number of permits in a run, newest first. -/
def changes (w : Traffic) : List (Happening Operation) → List Change
  | [] => []
  | .advance t :: hs => changed (w.after machine hs) t ++ changes w hs
  | .handOut _ :: hs => changes w hs

/-- The number of permits that was set last. -/
def lastSet (initial : Nat) : List Change → Nat
  | [] => initial
  | .reset permits :: _ => permits
  | .taken _ :: older | .returned :: older => lastSet initial older

/-- The permits that were returned since their number was set last. -/
def returnedSince : List Change → Nat
  | [] | .reset _ :: _ => 0
  | .taken _ :: older => returnedSince older
  | .returned :: older => returnedSince older + 1

/-- The permits that were taken since their number was set last. -/
def takenSince : List Change → Nat
  | [] | .reset _ :: _ => 0
  | .taken permits :: older => takenSince older + permits
  | .returned :: older => takenSince older

/-! ## A section -/

/-- The request that can be interrupted at a place. -/
def Place.op : Place → Operation
  | awaiting => .acquire
  | released => .release

/-- The request of which a section lies at a spot. -/
def Spot.op : Spot → Operation
  | opening op => op
  | place k => k.op

theorem Spot.op_of_asks {spot : Spot} (h : spot.asks = true) : spot.op = .acquire := by
  cases spot with
  | opening op => cases op <;> first | rfl | cases h
  | place k => cases k <;> first | rfl | cases h

/-- What a section does to the number of permits, if it is one of a request and ends in a move. -/
def Operation.changesBy (op : Operation) : Move Place Unit Answer → List Change
  | .signal _ _ => [.returned]
  | .finish a => (op.change? a).toList
  | _ => []

/-- A failure and a panic change nothing. -/
theorem Operation.change?_refused (op : Operation) (b : Bool) (text : String) (e : Error) :
    op.change? (if b then .panicked text else .failed e) = none := by
  cases op <;> cases b <;> rfl

namespace Session.Passage

variable {s s' : Session} {spot : Spot} {move : Move Place Unit Answer}

/-- A request is over, or is interrupted at a place of its own. -/
theorem move_cases (h : Passage s spot s' move) :
    (∃ a, move = .finish a) ∨
      ∃ k : Place, k.op = spot.op ∧ (move = .wait () k ∨ move = .signal () k) := by
  cases h with
  | waits ha => exact .inr ⟨.awaiting, (Spot.op_of_asks ha).symm, .inl rfl⟩
  | released => exact .inr ⟨.released, rfl, .inr rfl⟩
  | _ => exact .inl ⟨_, rfl⟩

/-- The ledger is kept of what requests are seen to do. -/
theorem ledger_eq (h : Passage s spot s' move) :
    s'.ledger = spot.op.changesBy move ++ s.ledger := by
  cases h with
  | granted ha => rw [Spot.op_of_asks ha]; rfl
  | refused => simp [Operation.changesBy, Operation.change?_refused]
  | _ => rfl

/-- The name stays, and no trap is set. -/
theorem frame (h : Passage s spot s' move) : s'.semaphore.name = s.semaphore.name ∧
    (s.log.trap = none → s'.log.trap = none) := by
  cases h with
  | refused => exact ⟨rfl, fun hnone => by simp [Logbook.write, hnone]⟩
  | _ => exact ⟨rfl, id⟩

/-- **The count is what the ledger adds up to**, section by section. -/
theorem balanced {initial : Nat} (h : Passage s spot s' move)
    (hs : s.semaphore.permits + takenSince s.ledger =
      lastSet initial s.ledger + returnedSince s.ledger) :
    s'.semaphore.permits + takenSince s'.ledger =
      lastSet initial s'.ledger + returnedSince s'.ledger := by
  cases h with
  | granted _ _ hp | tried _ hp => simp only [enter, takenSince, lastSet, returnedSince]; omega
  | released | drained => simp only [enter, takenSince, lastSet, returnedSince]; omega
  | reset => rfl
  | _ => exact hs

/-- The count stays within its bound, unless it is set to more. -/
theorem permits_le (h : Passage s spot s' move) (hs : s.semaphore.permits ≤ maxPermits)
    (hreset : ∀ permits, spot.op = .reset permits → permits ≤ maxPermits) :
    s'.semaphore.permits ≤ maxPermits := by
  cases h with
  | granted | tried => exact (Nat.sub_le _ _).trans hs
  | released _ hp => exact Nat.lt_of_le_of_ne hs hp
  | reset permits => exact hreset permits rfl
  | drained => exact Nat.zero_le _
  | _ => exact hs

/-- A poisoned semaphore stays as it is, and refuses every request but one that has only to answer.
-/
theorem of_poisoned (h : Passage s spot s' move) (hs : s.semaphore.poisoned = true)
    (htrap : s.log.trap = none) :
    s'.semaphore = s.semaphore ∧ (spot = .place .released ∧ move = .finish .done ∨
      spot ≠ .place .released ∧ move = .finish (.failed s.semaphore.error)) := by
  cases h with
  | refused hspot => exact ⟨rfl, .inr ⟨hspot, by simp [Logbook.springs, htrap]⟩⟩
  | returned => exact ⟨rfl, .inl ⟨rfl, rfl⟩⟩
  | granted _ hs' | waits _ hs' | tried hs' | triedInVain hs' | released hs' | overflowed hs'
    | reset _ hs' | drained hs' => cases hs'.symm.trans hs

end Session.Passage

/-! ## A step -/

section Worlds

variable {w v : Traffic} {t : Int} {r : Request} {name : String}

/-- Request `op` is answered with `a` in the next step of task `t`. -/
def Answers (w : Traffic) (t : Int) (op : Operation) (a : Answer) : Prop :=
  (w.advance machine t).1.events = ⟨t, .completed op a⟩ :: w.events

/-- What holds in every run in which no trap is set for the logger. -/
structure Kept (name : String) (w : Traffic) : Prop where
  name_eq : w.shared.semaphore.name = name
  trap_eq : w.shared.log.trap = none
  /-- A task is interrupted at a place of the request in which it is. -/
  place_op : ∀ t op k todo, w.tasks.get t = ⟨.inside op k, todo⟩ → k.op = op
  overflowed : w.shared.semaphore.poisoned = true → Overflowed w

theorem Kept.op_eq (h : Kept name w) (hr : request? w t = some r) : r.spot.op = r.op := by
  unfold request? at hr
  split at hr
  · next hx => cases hr; exact h.place_op _ _ _ _ hx
  · cases hr; rfl
  · cases hr

theorem Kept.advance (h : Kept name w) (t : Int) : Kept name (w.advance machine t).1 where
  name_eq := by
    rcases shared_advance w t with hsame | ⟨r, -, hsec⟩
    · rw [hsame, h.name_eq]
    · rw [hsec, (w.shared.passage_sectionAt r.spot).frame.1, h.name_eq]
  trap_eq := by
    rcases shared_advance w t with hsame | ⟨r, -, hsec⟩
    · rw [hsame, h.trap_eq]
    · rw [hsec]
      exact (w.shared.passage_sectionAt r.spot).frame.2 h.trap_eq
  place_op u op k todo hu := by
    by_cases heq : u = t
    · subst heq
      rcases hr : request? w u with - | r
      · have hout := (rests_of_no_request hr).outside
        rw [hu] at hout
        cases hout
      · have hp := w.shared.passage_sectionAt r.spot
        have hop := h.op_eq hr
        rw [advance_of_request hr] at hu
        generalize w.shared.sectionAt r.spot = sec at hp hu
        obtain ⟨s', move⟩ := sec
        rcases hp.move_cases with ⟨a, rfl⟩ | ⟨k', hk, rfl | rfl⟩
        all_goals
          simp only [World.settleMove, World.place, World.report, Roster.get_set_self] at hu
          cases hu
        · exact hk.trans hop
        · exact hk.trans hop
    · rw [World.advance_get_of_ne machine w t heq] at hu
      exact h.place_op u op k todo hu
  overflowed := overflowed_advance h.overflowed

theorem Kept.handOut (h : Kept name w) (a : Assignment Operation) : Kept name (w.handOut a) := by
  refine ⟨by rw [World.handOut_shared]; exact h.name_eq,
    by rw [World.handOut_shared]; exact h.trap_eq, fun t op k todo ht => ?_, fun hs => ?_⟩
  · rcases World.handOut_tasks a with htasks | ⟨-, htasks⟩
    · exact h.place_op t op k todo (htasks ▸ ht)
    · rw [htasks, Roster.get_set] at ht
      split at ht
      · cases ht
      · exact h.place_op t op k todo ht
  · rw [World.handOut_shared] at hs
    exact (h.overflowed hs).happen (.handOut a)

/-- A task wakes another one in a section of a request only. -/
theorem exists_request_of_signalled (h : (w.advance machine t).2 = .signalled ()) :
    ∃ r, request? w t = some r := by
  rcases hx : w.tasks.get t with ⟨- | - | ⟨op, k⟩, - | ⟨op' | - | ⟨what, fault⟩, todo⟩⟩
  all_goals simp [World.advance, request?, hx] at h ⊢

/-- A step that carries out no section does nothing to the number of permits. -/
theorem changed_of_no_request (hr : request? w t = none) : changed w t = [] := by
  obtain ⟨-, -, new, hnew, hevents⟩ := rests_of_no_request hr
  rw [changed, hevents, newSince_append, List.reverse_reverse, List.append_eq_nil_iff,
    List.filterMap_map, List.filterMap_eq_nil_iff]
  constructor
  · split
    · next hturn =>
      obtain ⟨r, hr'⟩ := exists_request_of_signalled hturn
      cases hr.symm.trans hr'
    · rfl
  · intro x hx
    cases x with
    | completed op a => exact absurd hx (hnew op a)
    | yielded | unreadable | busy => rfl

/-- What a request does to the number of permits can be told from its turn and its answer. -/
theorem changed_of_request (hr : request? w t = some r) :
    changed w t = r.op.changesBy (w.shared.sectionAt r.spot).2 := by
  rw [changed, advance_of_request hr]
  obtain ⟨s', move⟩ := w.shared.sectionAt r.spot
  have hsame : newSince w.events w.events = [] := newSince_append w.events []
  cases move with
  | go | wait | signal =>
    simp [World.settleMove, World.place, hsame, Operation.changesBy]
  | finish a =>
    have hnew := newSince_append w.events [⟨t, .completed r.op a⟩]
    rw [List.singleton_append] at hnew
    simp only [World.settleMove, World.place, World.report, hnew, Operation.changesBy]
    cases hc : r.op.change? a <;> simp [hc]

/-- What a step does to the number of permits is entered into the ledger. -/
theorem Kept.ledger_advance (h : Kept name w) (t : Int) :
    (w.advance machine t).1.shared.ledger = changed w t ++ w.shared.ledger := by
  rcases hr : request? w t with - | r
  · rw [(rests_of_no_request hr).shared_eq, changed_of_no_request hr]
    rfl
  · have hledger := (w.shared.passage_sectionAt r.spot).ledger_eq
    rw [h.op_eq hr] at hledger
    rw [advance_of_request hr, World.settleMove_shared, hledger, changed_of_request hr]

/-! ## After an overflow -/

/-- What a poisoned semaphore is like in a world `u`, after it was poisoned in a step to `v`. -/
structure Shut (name : String) (v u : Traffic) : Prop where
  permits_eq : u.shared.semaphore.permits = v.shared.semaphore.permits
  /-- Who begins a request is refused. -/
  begun : ∀ t op todo, u.tasks.get t = ⟨.idle, .perform op :: todo⟩ →
    Answers u t op (.failed (.poisoned name))
  /-- Who waits is refused when it has its turn, also if it was woken before. -/
  awaiting : ∀ t op todo, u.tasks.get t = ⟨.inside op .awaiting, todo⟩ →
    Answers u t op (.failed (.poisoned name))
  /-- Who has returned a permit had done so before, and has only to answer. -/
  released : ∀ t op todo, u.tasks.get t = ⟨.inside op .released, todo⟩ →
    v.tasks.get t = u.tasks.get t ∧ Answers u t op .done

theorem Kept.shut (h : Kept name w) (hs : w.shared.semaphore.poisoned = true)
    (hpermits : w.shared.semaphore.permits = v.shared.semaphore.permits)
    (hreleased : ∀ t op todo, w.tasks.get t = ⟨.inside op .released, todo⟩ →
      v.tasks.get t = w.tasks.get t) : Shut name v w := by
  have hrefused {t : Int} {r : Request} (hr : request? w t = some r)
      (hspot : r.spot ≠ .place .released) : Answers w t r.op (.failed (.poisoned name)) := by
    rcases ((w.shared.passage_sectionAt r.spot).of_poisoned hs h.trap_eq).2 with
      ⟨hspot', -⟩ | ⟨-, hmove⟩
    · exact absurd hspot' hspot
    · rw [error, h.name_eq] at hmove
      exact (answered_of_finish hr hmove).1
  refine ⟨hpermits, fun t op todo ht => ?_, fun t op todo ht => ?_, fun t op todo ht => ?_⟩
  · exact hrefused (r := ⟨op, .opening op, todo⟩) (by rw [request?, ht]) nofun
  · exact hrefused (r := ⟨op, .place .awaiting, todo⟩) (by rw [request?, ht]) nofun
  · exact ⟨hreleased t op todo ht,
      (answered_of_finish (r := ⟨op, .place .released, todo⟩) (by rw [request?, ht]) rfl).1⟩

/-- **A poisoned semaphore stays shut**, whatever happens. -/
theorem Kept.shut_after (h : Kept name v) (hs : v.shared.semaphore.poisoned = true)
    (later : List (Happening Operation)) : Shut name v (v.after machine later) := by
  suffices hall : Kept name (v.after machine later) ∧
      (v.after machine later).shared.semaphore = v.shared.semaphore ∧
      ∀ t op todo, (v.after machine later).tasks.get t = ⟨.inside op .released, todo⟩ →
        v.tasks.get t = (v.after machine later).tasks.get t by
    obtain ⟨hkept, hsame, hreleased⟩ := hall
    exact hkept.shut (by rw [hsame, hs]) (by rw [hsame]) hreleased
  induction later with
  | nil => exact ⟨h, rfl, fun _ _ _ _ => rfl⟩
  | cons x later ih =>
    obtain ⟨hkept, hsame, hreleased⟩ := ih
    rw [World.after_cons]
    generalize v.after machine later = u at hkept hsame hreleased
    cases x with
    | handOut a =>
      refine ⟨hkept.handOut a, by rw [World.happen, World.handOut_shared, hsame], ?_⟩
      intro t op todo ht
      rw [World.happen] at ht ⊢
      rcases World.handOut_tasks a with htasks | ⟨-, htasks⟩
      · rw [htasks] at ht ⊢
        exact hreleased t op todo ht
      · rw [htasks, Roster.get_set] at ht ⊢
        split at ht
        · cases ht
        · next hne => rw [if_neg hne]; exact hreleased t op todo ht
    | advance t =>
      rw [World.happen]
      refine ⟨hkept.advance t, ?_, fun u' op todo hu => ?_⟩
      · rcases shared_advance u t with hstays | ⟨r, -, hsec⟩
        · rw [hstays, hsame]
        · rw [hsec, ← hsame]
          exact ((u.shared.passage_sectionAt r.spot).of_poisoned (hsame ▸ hs) hkept.trap_eq).1
      · by_cases heq : u' = t
        · -- the task that has moved is in no request any more
          subst heq
          have hout : ((u.advance machine u').1.tasks.get u').isInside = false := by
            rcases hr : request? u u' with - | r
            · exact (rests_of_no_request hr).outside
            · rcases ((u.shared.passage_sectionAt r.spot).of_poisoned (hsame ▸ hs)
                hkept.trap_eq).2 with ⟨-, hmove⟩ | ⟨-, hmove⟩
              · exact (answered_of_finish hr hmove).2
              · exact (answered_of_finish hr hmove).2
          rw [hu] at hout
          cases hout
        · have hother := World.advance_get_of_ne machine u t heq
          rw [hother] at hu ⊢
          exact hreleased u' op todo hu

/-- A release at the largest count panics, wakes nobody, leaves the count and poisons the lock. -/
theorem Kept.overflow (h : Kept name w) {todo : List (Instruction Operation)}
    (ht : w.tasks.get t = ⟨.idle, .perform .release :: todo⟩)
    (hmax : w.shared.semaphore.permits = maxPermits) (hw : ¬Overflowed w) :
    Answers w t .release (.panicked overflowText) ∧ (w.advance machine t).2 = .ran ∧
      (w.advance machine t).1.shared.semaphore =
        { w.shared.semaphore with poisoned := true } := by
  have hs : w.shared.semaphore.poisoned = false := by
    simpa using fun hs => hw (h.overflowed hs)
  have hsec : w.shared.sectionAt (.opening .release) =
      ({ w.shared with semaphore := { w.shared.semaphore with poisoned := true } },
        .finish (.panicked overflowText)) := by
    simp [Session.sectionAt, Session.start, Session.release, give, hs, hmax]
  rw [Answers, advance_of_request (r := ⟨.release, .opening .release, todo⟩) (by rw [request?, ht]),
    hsec]
  exact ⟨rfl, rfl, rfl⟩

/-! ## Runs -/

/-- A request of which a section is carried out was assigned to its task. -/
theorem mem_assigned_of_request (hr : request? w t = some r) : r.op ∈ w.assigned t := by
  unfold request? at hr
  rw [World.assigned, World.begun]
  split at hr
  · next hx =>
    cases hr
    rw [hx]
    exact List.mem_append_left _ (List.mem_append_right _ List.mem_cons_self)
  · next hx =>
    cases hr
    rw [hx]
    exact List.mem_append_right _ List.mem_cons_self
  · cases hr

end Worlds

/-- A semaphore on which no task has begun to work. -/
def Traffic.fresh (name : String) (initial : Nat) (detail : Option Level) : Traffic :=
  .ofShared (.fresh (.fresh name initial) (.blank detail))

section Runs

variable (name : String) {initial : Nat} (detail : Option Level)

theorem kept_after (initial : Nat) (hs : List (Happening Operation)) :
    Kept name ((Traffic.fresh name initial detail).after machine hs) := by
  refine World.after_induction ⟨rfl, rfl, nofun, nofun⟩ (fun w x hw => ?_) hs
  cases x with
  | advance t => exact hw.advance t
  | handOut a => exact hw.handOut a

/-- The ledger of a run is what is seen of it. -/
theorem ledger_after (initial : Nat) (hs : List (Happening Operation)) :
    ((Traffic.fresh name initial detail).after machine hs).shared.ledger =
      changes (Traffic.fresh name initial detail) hs := by
  induction hs with
  | nil => rfl
  | cons x hs ih =>
    cases x with
    | handOut a => rw [World.after_cons, World.happen, World.handOut_shared, changes, ih]
    | advance t =>
      rw [World.after_cons, World.happen, changes,
        (kept_after name detail initial hs).ledger_advance, ih]

theorem balanced_after (initial : Nat) (hs : List (Happening Operation)) :
    let s := ((Traffic.fresh name initial detail).after machine hs).shared
    s.semaphore.permits + takenSince s.ledger =
      lastSet initial s.ledger + returnedSince s.ledger := by
  refine World.after_induction (P := fun w : Traffic => w.shared.semaphore.permits +
    takenSince w.shared.ledger = lastSet initial w.shared.ledger + returnedSince w.shared.ledger)
    rfl (fun w x hw => ?_) hs
  cases x with
  | handOut a => rw [World.happen, World.handOut_shared]; exact hw
  | advance t =>
    rw [World.happen]
    rcases shared_advance w t with hsame | ⟨r, -, hsec⟩
    · rw [hsame]; exact hw
    · rw [hsec]; exact (w.shared.passage_sectionAt r.spot).balanced hw

variable {hs : List (Happening Operation)}

theorem permits_le_after (hinitial : initial ≤ maxPermits)
    (hresets : ∀ a, .handOut a ∈ hs → ∀ permits, .perform (.reset permits) ∈ a.todo →
      permits ≤ maxPermits) :
    ((Traffic.fresh name initial detail).after machine hs).shared.semaphore.permits ≤
      maxPermits := by
  induction hs with
  | nil => exact hinitial
  | cons x hs ih =>
    have hresets' (a : Assignment Operation) (ha : .handOut a ∈ hs) :=
      hresets a (List.mem_cons_of_mem _ ha)
    specialize ih hresets'
    rw [World.after_cons]
    cases x with
    | handOut a => rw [World.happen, World.handOut_shared]; exact ih
    | advance t =>
      rw [World.happen]
      rcases shared_advance ((Traffic.fresh name initial detail).after machine hs) t with
        hsame | ⟨r, hr, hsec⟩
      · rw [hsame]; exact ih
      · rw [hsec]
        refine (Session.passage_sectionAt _ r.spot).permits_le ih fun permits hop => ?_
        have hassigned := mem_assigned_of_request hr
        rw [← (kept_after name detail initial hs).op_eq hr, hop, World.assigned_after] at hassigned
        obtain ⟨a, ha, hperform⟩ :=
          World.exists_of_mem_given ((List.mem_append.1 hassigned).resolve_left List.not_mem_nil)
        exact hresets' a ha permits hperform

/-- **The count of a semaphore is what was done to it**, at every point of every run: what it was
set to last, or was at first, and the permits returned since, without those taken since.  It stays
within a 64-bit word.

A release at the largest count panics, leaves the count as it is and wakes nobody.  From then on the
count never changes, and every request of every task fails in the next turn of its task, also one
that was woken before; but for a release that had returned its permit before, which answers as if
nothing had happened. -/
theorem permits_counted (hinitial : initial ≤ maxPermits)
    (hresets : ∀ a, .handOut a ∈ hs → ∀ permits, .perform (.reset permits) ∈ a.todo →
      permits ≤ maxPermits) :
    let w₀ := Traffic.fresh name initial detail
    let w := w₀.after machine hs
    let sem := w.shared.semaphore
    (sem.permits + takenSince (changes w₀ hs) =
        lastSet initial (changes w₀ hs) + returnedSince (changes w₀ hs) ∧
      sem.permits ≤ maxPermits) ∧
    ∀ t todo, w.tasks.get t = ⟨.idle, .perform .release :: todo⟩ → sem.permits = maxPermits →
      ¬Overflowed w →
        let v := (w.advance machine t).1
        Answers w t .release (.panicked overflowText) ∧ (w.advance machine t).2 = .ran ∧
          v.shared.semaphore.permits = sem.permits ∧
          ∀ later, Shut name v (v.after machine later) := by
  intro w₀ w sem
  refine ⟨⟨?_, permits_le_after name detail hinitial hresets⟩, fun t todo ht hmax hw => ?_⟩
  · have hbalanced := balanced_after name detail initial hs
    simp only [ledger_after] at hbalanced
    exact hbalanced
  · have hkept : Kept name w := kept_after name detail initial hs
    obtain ⟨hanswer, hturn, hsem⟩ := hkept.overflow ht hmax hw
    refine ⟨hanswer, hturn, by rw [hsem], fun later => ?_⟩
    exact (hkept.advance t).shut_after (by rw [hsem]) later

end Runs

deriving instance DecidableEq for Instruction, Standing, Task, Occurrence, Event

/-- A task waits, and the number of permits is then set to almost the largest one.  Two tasks return
a permit each: one of them is through with it, and has told the task that waits. -/
def brink : List (Happening Operation) :=
  [.advance 2, .advance 2, .advance 3, .advance 0, .advance 1, .handOut ⟨3, [.perform .release]⟩,
    .handOut ⟨2, [.perform .release, .perform .release]⟩,
    .handOut ⟨0, [.perform (.reset (maxPermits - 2))]⟩, .handOut ⟨1, [.perform .acquire]⟩]

theorem permits_counted_brink :
    let w₀ := Traffic.fresh "test" 0 none
    let w := w₀.after machine brink
    let v := (w.advance machine 2).1
    changes w₀ brink = [.returned, .returned, .reset (maxPermits - 2)] ∧
      w.shared.semaphore.permits + takenSince (changes w₀ brink) =
        lastSet 0 (changes w₀ brink) + returnedSince (changes w₀ brink) ∧
      w.shared.semaphore.permits = maxPermits ∧
      Answers w 2 .release (.panicked overflowText) ∧ (w.advance machine 2).2 = .ran ∧
      Answers v 1 .acquire (.failed (.poisoned "test")) ∧ Answers v 3 .release .done ∧
      ∀ later, (v.after machine later).shared.semaphore.permits = v.shared.semaphore.permits := by
  have hresets : ∀ a, .handOut a ∈ brink → ∀ permits, .perform (.reset permits) ∈ a.todo →
      permits ≤ maxPermits := by
    simp [brink]
  obtain ⟨⟨hcount, -⟩, hoverflow⟩ := permits_counted "test" none (Nat.zero_le _) hresets
  obtain ⟨hanswer, hturn, -, hshut⟩ := hoverflow 2 [] (by decide +kernel) (by decide +kernel)
    (not_overflowed_of_all (by decide +kernel))
  dsimp only
  exact ⟨by decide +kernel, hcount, by decide +kernel, hanswer, hturn,
    (hshut []).awaiting 1 .acquire [] (by decide +kernel),
    ((hshut []).released 3 .release [] (by decide +kernel)).2,
    fun later => (hshut later).permits_eq⟩

/-! ## An answer after an overflow -/

namespace Case

/-- A task that is woken at once takes the permit for which it waited, returns it, and returns one
too many, before the task that has woken it goes on. -/
def pushy : Case where
  name := "test"
  permits := 0
  wake := .now
  detail := none
  rounds :=
    [[⟨1, [.perform .acquire, .perform .release, .perform .release]⟩],
      [⟨0, [.perform (.reset (maxPermits - 1))]⟩], [⟨2, [.perform .release]⟩]]

/-- Not every answer after an overflow is that the semaphore is poisoned. -/
theorem done_after_overflow :
    ¬∀ later t earlier,
      (afterRounds pushy.initial pushy.rounds).world.events =
        later ++ ⟨t, .completed .release (.panicked overflowText)⟩ :: earlier →
      ∀ u op a, ⟨u, .completed op a⟩ ∈ later → a = .failed (.poisoned pushy.name) := by
  intro h
  have hevents : (afterRounds pushy.initial pushy.rounds).world.events =
      [⟨2, .completed .release .done⟩] ++ ⟨1, .completed .release (.panicked overflowText)⟩ ::
        [⟨1, .completed .release .done⟩, ⟨1, .completed .acquire .done⟩,
          ⟨0, .completed (.reset (maxPermits - 1)) .done⟩] := by
    decide +kernel
  cases h _ _ _ hevents 2 .release .done List.mem_cons_self

end Case

end Semaphore

end BoundedQueue
