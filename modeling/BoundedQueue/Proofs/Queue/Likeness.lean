import BoundedQueue.Proofs.Ring.Contents
import BoundedQueue.Proofs.Schedule.Translation
import BoundedQueue.Queue.Call

/-!
# Queues that are alike

Two queues can differ in many ways without it making a difference to the calls on them: in the
items that they hold, in hooks that accept whatever they are shown, in what happened to them long
ago.  A `Likeness` is such a way.  It says which queues are alike, and that they remain so when the
same part of both is changed, when both note or record the same, and when both show their hooks the
same entry.

`Likeness.begin` and `Likeness.resume` say that then the same comes of every section of a call on
them.  All that is known of the hooks is in the likeness, so that these two are proved once and not
for each of the ways.

Items may be exchanged by some `f`, several perhaps for the same one: an item is carried through the
ring, the hooks and the answers, and nothing but a hook can look at it.  The marker for the end of
input is no item, and stays what it is.
-/

set_option autoImplicit false

namespace BoundedQueue

variable {α : Type} (f : α → α)

/-! ## Where items are -/

/-- Exchanges the item, if the entry is one. -/
def Entry.map : Entry α → Entry α
  | item a => item (f a)
  | eof => eof

/-- Exchanges items in what happened. -/
def Note.map : Note α → Note α
  | consulted stage entry verdict => consulted stage (entry.map f) verdict
  | pushed entry => pushed (entry.map f)
  | popped entry => popped (entry.map f)
  | absorbed => absorbed
  | concluded => concluded
  | leftOut => leftOut
  | raised => raised
  | lowered => lowered
  | emptied => emptied
  | renewed => renewed

/-- Exchanges the item that is delivered. -/
def Errand.map : Errand α → Errand α
  | deliver a => deliver (f a)
  | farewell => farewell
  | relay => relay

/-- Exchanges the item that was found. -/
def Find.map : Find α → Find α
  | item a => item (f a)
  | absorbed => absorbed
  | concluded => concluded

/-- Exchanges the item that a call has in hand. -/
def Phase.map : Phase α → Phase α
  | askFree errand => askFree (errand.map f)
  | awaitFree errand => awaitFree (errand.map f)
  | store errand => store (errand.map f)
  | refundFree errand e => refundFree (errand.map f) e
  | publish errand => publish (errand.map f)
  | settle errand e? => settle (errand.map f) e?
  | askFilled => askFilled
  | awaitFilled => awaitFilled
  | fetch => fetch
  | refundFilled e => refundFilled e
  | vacate found => vacate (found.map f)
  | handOver a => handOver (f a)
  | fail e => fail e
  | passOn => passOn

/-- Exchanges the item that a call hands out or back. -/
def Outcome.map : Outcome α → Outcome α
  | done => done
  | item a => item (f a)
  | drained => drained
  | full a => full (f a)
  | failed e => failed e
  | panicked text => panicked text

/-- Exchanges the item to put and the hook to install. -/
def Call.exchange (g : Hook α → Hook α) : Call α → Call α
  | enqueue a => enqueue (f a)
  | tryEnqueue a => tryEnqueue (f a)
  | dequeue => dequeue
  | register => register
  | deregister => deregister
  | install stage hook => install stage (g hook)
  | clear => clear

@[simp] theorem Errand.entry_map (errand : Errand α) :
    (errand.map f).entry = errand.entry.map f := by
  cases errand <;> rfl

@[simp] theorem Queue.phaseWork_map (phase : Phase α) :
    Queue.phaseWork (phase.map f) = Queue.phaseWork phase := by
  cases phase <;> rfl

@[simp] theorem Queue.afterVacating_map (found : Find α) :
    Queue.afterVacating (found.map f) = (Queue.afterVacating found).map f := by
  cases found <;> rfl

/-! Nothing is exchanged by the identity. -/

@[simp] theorem Entry.map_id : Entry.map (id : α → α) = id := by
  funext entry
  cases entry <;> rfl

@[simp] theorem Note.map_id : Note.map (id : α → α) = id := by
  funext n
  cases n <;> simp [map]

@[simp] theorem Errand.map_id : Errand.map (id : α → α) = id := by
  funext errand
  cases errand <;> rfl

@[simp] theorem Find.map_id : Find.map (id : α → α) = id := by
  funext found
  cases found <;> rfl

@[simp] theorem Phase.map_id : Phase.map (id : α → α) = id := by
  funext phase
  cases phase <;> simp [map]

/-! ## Likenesses -/

/-- Hooks and history apart, the second queue is the first one with its items exchanged, and its
logger panics at the same records. -/
structure Queue.Resembles (q q' : Queue α) : Prop where
  capacity_eq : q'.capacity = q.capacity
  ring_eq : q'.ring = q.ring.map (Entry.map f)
  bufferPoisoned_eq : q'.bufferPoisoned = q.bufferPoisoned
  producers_eq : q'.producers = q.producers
  producersPoisoned_eq : q'.producersPoisoned = q.producersPoisoned
  free_eq : q'.free = q.free
  filled_eq : q'.filled = q.filled
  springs_eq : ∀ r, q'.log.springs r = q.log.springs r

theorem Queue.Resembles.len_eq {q q' : Queue α} (h : q.Resembles f q') : q'.len = q.len := by
  rw [Queue.len, h.ring_eq]
  rfl

/-- A way for queues to be alike, in which it makes no difference to a call on which of them it is
made.  What was decided by hooks may have to be `Sound`, and the hooks that are installed `Fit`. -/
structure Likeness where
  Like : Queue α → Queue α → Prop
  /-- What is required of the history of the first queue. -/
  Sound : List (Note α) → Prop
  /-- What is required of a hook that is installed in the first queue. -/
  Fit : Hook α → Prop
  /-- The hook that is installed in the second queue at the same time. -/
  hook : Hook α → Hook α
  resembles : ∀ {q q'}, Like q q' → q.Resembles f q'
  record : ∀ {q q'}, Like q q' → ∀ r, Like (q.record r) (q'.record r)
  trap : ∀ {q q'}, Like q q' → ∀ opening,
    Like { q with log := q.log.setTrap opening } { q' with log := q'.log.setTrap opening }
  note : ∀ {q q'}, Like q q' → ∀ n : Note α, Like (q.note n) (q'.note (n.map f))
  poison : ∀ {q q'}, Like q q' → ∀ l, Like (q.poison l) (q'.poison l)
  semaphore : ∀ {q q'}, Like q q' → ∀ side s,
    Like (q.setSemaphore side s) (q'.setSemaphore side s)
  producers : ∀ {q q'}, Like q q' → ∀ n, Like { q with producers := n } { q' with producers := n }
  ring : ∀ {q q'}, Like q q' → ∀ r,
    Like { q with ring := r } { q' with ring := r.map (Entry.map f) }
  install : ∀ {q q'}, Like q q' → ∀ stage {h}, Fit h →
    Like (q.setHook stage h) (q'.setHook stage (hook h))
  /-- The hooks decide the same. -/
  consult : ∀ {q q'}, Like q q' → ∀ stage entry, Sound (q.consult stage entry).2.history →
    Like (q.consult stage entry).2 (q'.consult stage (entry.map f)).2 ∧
      (q'.consult stage (entry.map f)).1 = (q.consult stage entry).1
  /-- A sound history has been so before. -/
  sound_of_append : ∀ notes {history}, Sound (notes ++ history) → Sound history

namespace Likeness

variable {f} (L : Likeness f)

/-- The same has come of two sections, if that of the first one is sound. -/
def Parallel (s s' : Section α) : Prop :=
  L.Sound s.1.history → L.Like s.1 s'.1 ∧ s'.2 = s.2.map (Phase.map f) (Outcome.map f)

variable {L} {q q' : Queue α} (hq : L.Like q q')

theorem Parallel.intro {move : Move (Phase α) Side (Outcome α)} (hq : L.Like q q') :
    L.Parallel (q, move) (q', move.map (Phase.map f) (Outcome.map f)) := fun _ => ⟨hq, rfl⟩

theorem Parallel.ite {c c' : Bool} (hc : c' = c) {s t s' t' : Section α} (hs : L.Parallel s s')
    (ht : L.Parallel t t') : L.Parallel (if c then s else t) (if c' then s' else t') := by
  subst hc
  cases c' with
  | true => exact hs
  | false => exact ht

include hq

theorem semaphore_eq (side : Side) : q'.semaphore side = q.semaphore side := by
  cases side with
  | free => exact (L.resembles hq).free_eq
  | filled => exact (L.resembles hq).filled_eq

theorem logged (r : Record) {next next' : Queue α → Section α}
    (hnext : ∀ {q q'}, L.Like q q' → L.Parallel (next q) (next' q')) :
    L.Parallel (q.logged r next) (q'.logged r next') := by
  rw [Queue.logged, Queue.logged, (L.resembles hq).springs_eq]
  split
  · exact .intro (L.record hq r)
  · exact hnext (L.record hq r)

theorem loggedUnder (l : Lock) (r : Record) {next next' : Queue α → Section α}
    (hnext : ∀ {q q'}, L.Like q q' → L.Parallel (next q) (next' q')) :
    L.Parallel (q.loggedUnder l r next) (q'.loggedUnder l r next') := by
  rw [Queue.loggedUnder, Queue.loggedUnder, (L.resembles hq).springs_eq]
  split
  · exact .intro (L.poison (L.record hq r) l)
  · exact hnext (L.record hq r)

theorem refused (l : Lock) {next next' : Error → Move (Phase α) Side (Outcome α)}
    (hnext : ∀ e, next' e = (next e).map (Phase.map f) (Outcome.map f)) :
    L.Parallel (q.refused l next) (q'.refused l next') :=
  logged hq _ fun hq _ => ⟨hq, hnext _⟩

theorem refusedBy (s : Semaphore) {next next' : Queue α → Error → Section α}
    (hnext : ∀ {q q'} e, L.Like q q' → L.Parallel (next q e) (next' q' e)) :
    L.Parallel (q.refusedBy s next) (q'.refusedBy s next') :=
  logged hq _ fun hq => hnext _ hq

theorem release (side : Side) (next : Phase α) (otherwise : Error → Phase α) :
    L.Parallel (q.release side next otherwise)
      (q'.release side (next.map f) fun e => (otherwise e).map f) := by
  rw [Queue.release, Queue.release, semaphore_eq hq]
  cases (q.semaphore side).give with
  | given after | overflow after => exact .intro (L.semaphore hq side after)
  | poisoned => exact refusedBy hq _ fun _ hq => .intro hq

/-- The hooks of both queues give the same verdict. -/
theorem consulted (stage : Stage) (entry : Entry α)
    (hsound : L.Sound (q.consult stage entry).2.history) :
    ∃ v q₁ q₁', q.consult stage entry = (v, q₁) ∧ q'.consult stage (entry.map f) = (v, q₁') ∧
      L.Like q₁ q₁' := by
  obtain ⟨hq₁, hv⟩ := L.consult hq stage entry hsound
  exact ⟨(q.consult stage entry).1, (q.consult stage entry).2,
    (q'.consult stage (entry.map f)).2, rfl, Prod.ext hv rfl, hq₁⟩

/-! ### Putting an entry -/

theorem takeFree (errand : Errand α) :
    L.Parallel (q.takeFree errand) (q'.takeFree (errand.map f)) := by
  rw [Queue.takeFree, Queue.takeFree, (L.resembles hq).free_eq]
  cases q.free.take with
  | granted rest => exact .intro (L.semaphore hq .free rest)
  | empty => exact .intro hq
  | poisoned => exact refusedBy hq _ fun _ hq => logged hq _ fun hq => .intro hq

theorem tryFree (a : α) : L.Parallel (q.tryFree a) (q'.tryFree (f a)) := by
  rw [Queue.tryFree, Queue.tryFree, (L.resembles hq).free_eq]
  cases q.free.take with
  | granted rest => exact .intro (L.semaphore hq .free rest)
  | empty => exact .intro hq
  | poisoned => exact refusedBy hq _ fun _ hq => .intro hq

omit hq in
theorem history_logged (q : Queue α) (r : Record) {next : Queue α → Section α}
    (hnext : ∀ q, (next q).1.history = q.history) : (q.logged r next).1.history = q.history := by
  rw [Queue.logged]
  split
  · rfl
  · exact hnext _

omit hq in
theorem history_loggedUnder (q : Queue α) (l : Lock) (r : Record) {next : Queue α → Section α}
    (hnext : ∀ q, (next q).1.history = q.history) :
    (q.loggedUnder l r next).1.history = q.history := by
  rw [Queue.loggedUnder]
  split
  · cases l <;> rfl
  · exact hnext _

omit hq in
/-- What the enqueue hook decided stays on record. -/
theorem history_store (q : Queue α) (errand : Errand α) (h : ¬q.bufferPoisoned) :
    ∃ notes, (q.store errand).1.history =
      notes ++ (q.consult .enqueue errand.entry).2.history := by
  rw [Queue.store, if_neg h]
  obtain ⟨v, q₁⟩ := q.consult .enqueue errand.entry
  cases v with
  | panic text => exact ⟨[], rfl⟩
  | reject cause => exact ⟨[], history_logged q₁ _ fun _ => rfl⟩
  | accept =>
    cases hpush : q₁.ring.push? errand.entry with
    | some ring => simp only [hpush]; exact ⟨[_], rfl⟩
    | none => simp only [hpush]; exact ⟨[], history_logged q₁ _ fun _ => rfl⟩

theorem store (errand : Errand α) : L.Parallel (q.store errand) (q'.store (errand.map f)) := by
  have hr := L.resembles hq
  by_cases hpoisoned : q.bufferPoisoned
  · rw [Queue.store, Queue.store, if_pos hpoisoned,
      if_pos (hr.bufferPoisoned_eq.trans hpoisoned)]
    exact refused hq .buffer fun _ => rfl
  · intro hsound
    obtain ⟨notes, hnotes⟩ := history_store q errand hpoisoned
    obtain ⟨v, q₁, q₁', hx, hx', hq₁⟩ :=
      consulted hq .enqueue errand.entry (L.sound_of_append notes (hnotes ▸ hsound))
    refine (?_ : L.Parallel (q.store errand) (q'.store (errand.map f))) hsound
    rw [Queue.store, Queue.store, if_neg hpoisoned, if_neg (hr.bufferPoisoned_eq ▸ hpoisoned),
      Errand.entry_map, hx, hx']
    cases v with
    | panic text => exact .intro (L.poison hq₁ .buffer)
    | reject cause => exact logged hq₁ _ fun hq => .intro hq
    | accept =>
      have hpush : q₁'.ring.push? (errand.entry.map f) =
          (q₁.ring.push? errand.entry).map (Ring.map (Entry.map f)) := by
        rw [(L.resembles hq₁).ring_eq, Ring.push?_map]
      simp only [hpush]
      cases q₁.ring.push? errand.entry with
      | some ring => exact .intro (L.note (L.ring hq₁ ring) (.pushed _))
      | none => exact logged hq₁ _ fun hq => .intro hq

theorem settle (errand : Errand α) (e? : Option Error) :
    L.Parallel (q.settle errand e?) (q'.settle (errand.map f) e?) := by
  cases e? with
  | none => cases errand <;> exact .intro hq
  | some e =>
    cases errand with
    | farewell => exact logged hq _ fun hq => .intro hq
    | deliver | relay => exact .intro hq

/-! ### Taking an entry -/

theorem takeFilled : L.Parallel q.takeFilled q'.takeFilled := by
  rw [Queue.takeFilled, Queue.takeFilled, (L.resembles hq).filled_eq]
  cases q.filled.take with
  | granted rest => exact .intro (L.semaphore hq .filled rest)
  | empty => exact .intro hq
  | poisoned => exact refusedBy hq _ fun _ hq => logged hq _ fun hq => .intro hq

theorem weigh (entry : Entry α) : L.Parallel (q.weigh entry) (q'.weigh (entry.map f)) := by
  have hr := L.resembles hq
  cases entry with
  | item a => exact .intro hq
  | eof =>
    have hempty : q'.ring.isEmpty = q.ring.isEmpty := by rw [hr.ring_eq]; rfl
    rw [Entry.map, Queue.weigh, Queue.weigh, hempty, hr.producersPoisoned_eq, hr.producers_eq]
    split
    · exact .intro (L.note hq .absorbed)
    · split
      · exact loggedUnder hq _ _ fun hq => .intro hq
      · split
        · exact .intro (L.note hq .concluded)
        · exact .intro (L.note hq .absorbed)

omit hq in
theorem history_weigh (q : Queue α) (entry : Entry α) :
    ∃ notes, (q.weigh entry).1.history = notes ++ q.history := by
  cases entry with
  | item a => exact ⟨[], rfl⟩
  | eof =>
    rw [Queue.weigh]
    split
    · exact ⟨[_], rfl⟩
    · split
      · exact ⟨[], history_loggedUnder q _ _ fun _ => rfl⟩
      · split <;> exact ⟨[_], rfl⟩

omit hq in
/-- What the dequeue hook decided stays on record. -/
theorem history_fetch (q : Queue α) {head : Entry α} (h : ¬q.bufferPoisoned)
    (hpeek : q.ring.peek? = some head) :
    ∃ notes, q.fetch.1.history = notes ++ (q.consult .dequeue head).2.history := by
  rw [Queue.fetch, if_neg h, hpeek]
  simp only
  obtain ⟨v, q₁⟩ := q.consult .dequeue head
  cases v with
  | panic text => exact ⟨[], rfl⟩
  | reject cause => exact ⟨[], history_logged q₁ _ fun _ => rfl⟩
  | accept =>
    cases hpop : q₁.ring.pop? with
    | none => simp only [hpop]; exact ⟨[], rfl⟩
    | some popped =>
      obtain ⟨entry, ring⟩ := popped
      obtain ⟨notes, hnotes⟩ := history_weigh ({ q₁ with ring := ring }.note (.popped entry)) entry
      simp only [hpop]
      exact ⟨notes ++ [.popped entry], by rw [hnotes, List.append_assoc]; rfl⟩

theorem fetch : L.Parallel q.fetch q'.fetch := by
  have hr := L.resembles hq
  have hpeek' : q'.ring.peek? = q.ring.peek?.map (Entry.map f) := by
    rw [hr.ring_eq, Ring.peek?_map]
  by_cases hpoisoned : q.bufferPoisoned
  · rw [Queue.fetch, Queue.fetch, if_pos hpoisoned, if_pos (hr.bufferPoisoned_eq.trans hpoisoned)]
    exact refused hq .buffer fun _ => rfl
  have hpoisoned' : ¬q'.bufferPoisoned := hr.bufferPoisoned_eq ▸ hpoisoned
  cases hpeek : q.ring.peek? with
  | none =>
    rw [Queue.fetch, Queue.fetch, if_neg hpoisoned, if_neg hpoisoned', hpeek', hpeek]
    exact logged hq _ fun hq => .intro hq
  | some head =>
    intro hsound
    obtain ⟨notes, hnotes⟩ := history_fetch q hpoisoned hpeek
    obtain ⟨v, q₁, q₁', hx, hx', hq₁⟩ :=
      consulted hq .dequeue head (L.sound_of_append notes (hnotes ▸ hsound))
    refine (?_ : L.Parallel q.fetch q'.fetch) hsound
    rw [Queue.fetch, Queue.fetch, if_neg hpoisoned, if_neg hpoisoned', hpeek', hpeek]
    simp only [Option.map_some, hx, hx']
    cases v with
    | panic text => exact .intro (L.poison hq₁ .buffer)
    | reject cause => exact logged hq₁ _ fun hq => .intro hq
    | accept =>
      have hpop : q₁'.ring.pop? =
          q₁.ring.pop?.map (Prod.map (Entry.map f) (Ring.map (Entry.map f))) := by
        rw [(L.resembles hq₁).ring_eq, Ring.pop?_map]
      simp only [hpop]
      cases q₁.ring.pop? with
      | none => exact .intro hq₁
      | some popped => exact weigh (L.note (L.ring hq₁ popped.2) (.popped _)) popped.1

theorem passOn : L.Parallel q.passOn q'.passOn := by
  rw [Queue.passOn, Queue.passOn, (L.resembles hq).free_eq]
  cases q.free.take with
  | granted rest => exact logged (L.semaphore hq .free rest) _ fun hq => .intro hq
  | empty => exact logged (L.note hq .leftOut) _ fun hq => .intro hq
  | poisoned => exact refusedBy hq _ fun _ hq => .intro hq

/-! ### Producers, hooks, and starting afresh -/

theorem raise : L.Parallel q.raise q'.raise := by
  have hr := L.resembles hq
  rw [Queue.raise, Queue.raise, hr.producers_eq]
  exact .ite hr.producersPoisoned_eq (refused hq .producers fun _ => rfl)
    (loggedUnder (L.note (L.producers hq (q.producers + 1)) .raised) _ _ fun hq => .intro hq)

theorem lower : L.Parallel q.lower q'.lower := by
  have hr := L.resembles hq
  rw [Queue.lower, Queue.lower, hr.producers_eq]
  refine .ite hr.producersPoisoned_eq (refused hq .producers fun _ => rfl) ?_
  cases q.producers with
  | zero => exact loggedUnder hq _ _ fun hq => .intro hq
  | succ n => exact loggedUnder (L.note (L.producers hq n) .lowered) _ _ fun hq => .intro hq

theorem installed (stage : Stage) {h : Hook α} (hh : L.Fit h) :
    L.Parallel (q.install stage h) (q'.install stage (L.hook h)) :=
  .ite (L.resembles hq).bufferPoisoned_eq (refused hq .buffer fun _ => rfl)
    (.intro (L.install hq stage hh))

theorem resetThen (side : Side) {permits permits' : Nat} (hpermits : permits' = permits)
    {next next' : Queue α → Section α}
    (hnext : ∀ {q q'}, L.Like q q' → L.Parallel (next q) (next' q')) :
    L.Parallel (q.resetThen side permits next) (q'.resetThen side permits' next') := by
  rw [Queue.resetThen, Queue.resetThen, semaphore_eq hq, hpermits]
  cases (q.semaphore side).reset? permits with
  | some after => exact hnext (L.semaphore hq side after)
  | none => exact refusedBy hq _ fun _ hq => .intro hq

theorem clear : L.Parallel q.clear q'.clear := by
  have hr := L.resembles hq
  have hemptied : L.Like ({ q with ring := q.ring.clear }.note .emptied)
      ({ q' with ring := q'.ring.clear }.note .emptied) := by
    rw [hr.ring_eq, Ring.clear_map]
    exact L.note (L.ring hq q.ring.clear) .emptied
  exact .ite hr.bufferPoisoned_eq (refused hq .buffer fun _ => rfl) <|
    .ite hr.producersPoisoned_eq (refused hemptied .producers fun _ => rfl) <|
    resetThen (L.producers hemptied 0) .free hr.capacity_eq fun hq =>
    resetThen hq .filled rfl fun hq => .intro (L.note hq .renewed)

/-! ### Calls as a whole -/

/-- **A call begins alike.** -/
theorem begin {c : Call α} (hc : ∀ stage h, c = .install stage h → L.Fit h) :
    L.Parallel (q.begin c) (q'.begin (c.exchange f L.hook)) := by
  cases c with
  | enqueue a => exact takeFree hq (.deliver a)
  | tryEnqueue a => exact tryFree hq a
  | dequeue => exact takeFilled hq
  | register => exact raise hq
  | deregister => exact lower hq
  | install stage h => exact installed hq stage (hc stage h rfl)
  | clear => exact clear hq

/-- **A call goes on alike.** -/
theorem resume (phase : Phase α) :
    L.Parallel (q.resume phase) (q'.resume (phase.map f)) := by
  cases phase with
  | askFree errand | awaitFree errand => exact takeFree hq errand
  | store errand => exact store hq errand
  | refundFree errand e => exact release hq _ (.settle errand (some e)) _
  | publish errand => exact release hq _ (.settle errand none) _
  | settle errand e? => exact settle hq errand e?
  | askFilled | awaitFilled => exact takeFilled hq
  | fetch => exact fetch hq
  | refundFilled e => exact release hq _ (.fail e) _
  | vacate found =>
    show L.Parallel _ (q'.release _ (Queue.afterVacating (found.map f)) _)
    rw [Queue.afterVacating_map]
    exact release hq _ (Queue.afterVacating found) .fail
  | handOver a | fail e => exact .intro hq
  | passOn => exact passOn hq

end Likeness

/-! ## The past -/

/-- The queue with more notes and records that are older than all that it has. -/
def Queue.withPast (q : Queue α) (notes : List (Note α)) (records : List Record) : Queue α :=
  { q with
    history := q.history ++ notes
    log := { q.log with records := q.log.records ++ records } }

theorem Queue.record_withPast (q : Queue α) (notes : List (Note α)) (records : List Record)
    (r : Record) : (q.withPast notes records).record r = (q.record r).withPast notes records := by
  have hwrite : (Logbook.write { q.log with records := q.log.records ++ records } r) =
      { q.log.write r with records := (q.log.write r).records ++ records } := by
    refine congrArg (Logbook.mk _ _) ?_
    show (if q.log.keeps r.level then _ else _) = (if q.log.keeps r.level then _ else _) ++ _
    split <;> rfl
  exact congrArg (fun log => { q with history := q.history ++ notes, log := log }) hwrite

theorem Queue.consult_withPast (q : Queue α) (notes : List (Note α)) (records : List Record)
    (stage : Stage) (entry : Entry α) : (q.withPast notes records).consult stage entry =
      ((q.consult stage entry).1, (q.consult stage entry).2.withPast notes records) := by
  have hhook : (q.withPast notes records).hook? stage = q.hook? stage := by cases stage <;> rfl
  rw [consult, hhook, consult]
  cases q.hook? stage with
  | none => rfl
  | some h => cases stage <;> rfl

/-- What happened long ago makes no difference. -/
def Likeness.past (notes : List (Note α)) (records : List Record) : Likeness (id : α → α) where
  Like q q' := q' = q.withPast notes records
  Sound _ := True
  Fit _ := True
  hook h := h
  resembles := by
    rintro q _ rfl
    exact ⟨rfl, by rw [Entry.map_id, Ring.map_id]; rfl, rfl, rfl, rfl, rfl, rfl, fun _ => rfl⟩
  record := by
    rintro q _ rfl r
    exact q.record_withPast notes records r
  trap := by
    rintro q _ rfl opening
    rfl
  note := by
    rintro q _ rfl n
    rw [Note.map_id]
    rfl
  poison := by
    rintro q _ rfl l
    cases l <;> rfl
  semaphore := by
    rintro q _ rfl side s
    cases side <;> rfl
  producers := by
    rintro q _ rfl n
    rfl
  ring := by
    rintro q _ rfl r
    rw [Entry.map_id, Ring.map_id]
    rfl
  install := by
    rintro q _ rfl stage h -
    cases stage <;> rfl
  consult := by
    rintro q _ rfl stage entry -
    rw [Entry.map_id, id_eq, q.consult_withPast notes records]
    exact ⟨rfl, rfl⟩
  sound_of_append _ _ _ := trivial

/-- A queue that forgets what happened to it, with that for its past, is the queue itself. -/
theorem Queue.withPast_history (q : Queue α) :
    { q with history := [] }.withPast q.history [] = q := by
  rw [withPast, List.append_nil, List.nil_append]

end BoundedQueue
