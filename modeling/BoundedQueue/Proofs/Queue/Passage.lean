import BoundedQueue.Queue.Call
import BoundedQueue.Proofs.Ring.Contents
import Mathlib.Data.Multiset.ZeroCons

/-!
# What a section can do

A section of a call is carried out at a `Spot`: at the opening of the call, or at a phase of it.
`Passage` lists everything that can come of it, guards included: the queue before and after, the
move in which the section ends, and the record that it writes on the way, if it writes one.

## What is here

* `Spot.asksFree` and `Spot.asksFilled` say at which spots a permit is asked for, so that one
  passage stands for all of them.  What a call holds between two sections is its `Burden`.
* `Queue.remarked` ends a section with a `Remark`, at which the logger may panic.  A passage does
  not say whether it does: that depends on the log only, and `Queue.remarked_cases` has the two
  cases.
* `Queue.exists_passage` says that the list is complete for a queue that is `Workable`: no semaphore
  is poisoned, and nothing of what a call holds is at odds with the rest.  There is one lemma for
  each kind of section, in the order in which a call comes to them.

Every invariant is a case analysis on `Passage`; the sections themselves are opened nowhere else.
Some analyses that come up again are stated as lemmas: `Passage.register_cases`,
`Passage.deregister_cases`, and `Passage.of_asksFree` and `Passage.of_asksFilled` for the calls that
ask for a permit.
-/

set_option autoImplicit false

namespace BoundedQueue

variable {α : Type}

/-! ## Spots -/

/-- Where the next section of a call lies. -/
inductive Spot (α : Type) where
  /-- At the beginning of a call. -/
  | opening (c : Call α)
  /-- At a phase of a call in progress. -/
  | phase (p : Phase α)

namespace Spot

/-- Why a free permit is asked for at a spot. -/
def asksFree : Spot α → Option (Errand α)
  | opening (.enqueue a) | opening (.tryEnqueue a) => some (.deliver a)
  | phase (.askFree errand) | phase (.awaitFree errand) => some errand
  | _ => none

/-- Whether a filled permit is asked for at a spot. -/
def asksFilled : Spot α → Bool
  | opening .dequeue | phase .askFilled | phase .awaitFilled => true
  | _ => false

/-- Whether the call goes without a free permit if there is none. -/
def isAttempt : Spot α → Bool
  | opening (.tryEnqueue _) => true
  | _ => false

end Spot

/-- What a call holds between two sections. -/
inductive Burden where
  | nothing
  /-- A free permit, for an entry that is not pushed yet. -/
  | freePermit
  /-- A slot that it has filled, and whose filled permit it has not given yet. -/
  | filledSlot
  /-- A filled permit, for an entry that is not popped yet. -/
  | filledPermit
  /-- A slot that it has emptied, and whose free permit it has not given yet. -/
  | vacantSlot
  deriving DecidableEq, Repr

/-- What a call holds at a phase. -/
def Phase.burden : Phase α → Burden
  | .store _ | .refundFree _ _ => .freePermit
  | .publish _ => .filledSlot
  | .fetch | .refundFilled _ => .filledPermit
  | .vacate _ => .vacantSlot
  | _ => .nothing

/-- What a call holds at a spot; at its opening, nothing. -/
def Spot.burden : Spot α → Burden
  | opening _ => .nothing
  | phase p => p.burden

/-- The phase at a spot; the opening of a call is none. -/
def Spot.phases : Spot α → Multiset (Phase α)
  | opening _ => 0
  | phase p => {p}

theorem Spot.of_asksFree {spot : Spot α} {errand : Errand α} {p : Phase α}
    (h : spot.asksFree = some errand) (hp : p ∈ spot.phases) :
    p = .askFree errand ∨ p = .awaitFree errand := by
  cases spot with
  | opening => cases hp
  | phase p' =>
    obtain rfl := Multiset.mem_singleton.1 hp
    cases p with
    | askFree => cases h; exact .inl rfl
    | awaitFree => cases h; exact .inr rfl
    | _ => cases h

/-- Nobody asks for both kinds of permits at once. -/
theorem Spot.asksFilled_of_asksFree {spot : Spot α} {errand : Errand α}
    (h : spot.asksFree = some errand) : spot.asksFilled = false := by
  unfold asksFree at h
  split at h
  · rfl
  · rfl
  · rfl
  · rfl
  · cases h

theorem Spot.of_asksFilled {spot : Spot α} {p : Phase α} (h : spot.asksFilled = true)
    (hp : p ∈ spot.phases) : p = .askFilled ∨ p = .awaitFilled := by
  cases spot with
  | opening => cases hp
  | phase p' =>
    obtain rfl := Multiset.mem_singleton.1 hp
    cases p with
    | askFilled => exact .inl rfl
    | awaitFilled => exact .inr rfl
    | _ => cases h

/-- The phase in which a section leaves its call; a call that is over is in none. -/
def Move.phases {ι ρ : Type} : Move (Phase α) ι ρ → Multiset (Phase α)
  | .go next => {next}
  | .wait _ retry => {retry}
  | .signal _ next => {next}
  | .finish _ => 0

theorem Move.phases_of_mem {ι ρ : Type} {move : Move (Phase α) ι ρ} {p : Phase α}
    (h : p ∈ move.phases) : move.phases = {p} := by
  cases move with
  | go | wait | signal => rw [Multiset.mem_singleton.1 h]; rfl
  | finish => cases h

/-- A record that a section writes, and the lock under which it does. -/
structure Remark where
  record : Record
  under : Option Lock

namespace Queue

/-- The section of a call at a spot. -/
def sectionAt (q : Queue α) : Spot α → Section α
  | .opening c => q.begin c
  | .phase p => q.resume p

/-- Ends a section with a remark, at which the logger may panic. -/
def remarked (q : Queue α) (move : Move (Phase α) Side (Outcome α)) : Option Remark → Section α
  | none => (q, move)
  | some ⟨r, none⟩ => q.logged r fun q => (q, move)
  | some ⟨r, some lock⟩ => q.loggedUnder lock r fun q => (q, move)

/-- A remark is written, or the logger panics at it. -/
theorem remarked_cases (q : Queue α) (move : Move (Phase α) Side (Outcome α)) (r : Option Remark) :
    (∃ log, q.remarked move r = ({ q with log := log }, move)) ∨
      ∃ log bufferPoisoned producersPoisoned, r ≠ none ∧ q.remarked move r =
        ({ q with
            log := log, bufferPoisoned := bufferPoisoned, producersPoisoned := producersPoisoned },
          .finish (.panicked Logbook.panicText)) := by
  rcases r with - | ⟨r, - | lock⟩
  · exact .inl ⟨q.log, rfl⟩
  · by_cases h : q.log.springs r = true
    · exact .inr ⟨_, q.bufferPoisoned, q.producersPoisoned, nofun, by
        simp only [remarked, logged, if_pos h]; rfl⟩
    · exact .inl ⟨_, by simp only [remarked, logged, if_neg h]; rfl⟩
  · by_cases h : q.log.springs r = true
    · cases lock with
      | buffer => exact .inr ⟨_, true, q.producersPoisoned, nofun, by
          simp only [remarked, loggedUnder, if_pos h]; rfl⟩
      | producers => exact .inr ⟨_, q.bufferPoisoned, true, nofun, by
          simp only [remarked, loggedUnder, if_pos h]; rfl⟩
    · exact .inl ⟨_, by simp only [remarked, loggedUnder, if_neg h]; rfl⟩

/-! ## Passages -/

/-- What can come of the section at a spot, unless the logger panics: the remark that is made, the
queue afterwards but for that remark, and the move. -/
inductive Passage (q : Queue α) :
    Spot α → Option Remark → Queue α → Move (Phase α) Side (Outcome α) → Prop where
  -- putting an entry
  | takeFree {spot : Spot α} {errand : Errand α} (hs : spot.asksFree = some errand)
      (hp : 0 < q.free.permits) :
      Passage q spot none { q with free := { q.free with permits := q.free.permits - 1 } }
        (.go (.store errand))
  | waitFree {spot : Spot α} {errand : Errand α} (hs : spot.asksFree = some errand)
      (ha : spot.isAttempt = false) (hp : q.free.permits = 0) :
      Passage q spot none q (.wait .free (.awaitFree errand))
  | full (a : α) (hp : q.free.permits = 0) :
      Passage q (.opening (.tryEnqueue a)) none q (.finish (.full a))
  | storeRefused (errand : Errand α) (hb : q.bufferPoisoned = true) :
      Passage q (.phase (.store errand)) (some ⟨.bufferPoisoned, none⟩) q
        (.go (.settle errand (some Lock.buffer.error)))
  | storePanicked {errand : Errand α} {q₁ : Queue α} {text : String}
      (hb : q.bufferPoisoned = false)
      (hc : q.consult .enqueue errand.entry = (.panic text, q₁)) :
      Passage q (.phase (.store errand)) none (q₁.poison .buffer) (.finish (.panicked text))
  | storeRejected {errand : Errand α} {q₁ : Queue α} {cause : Cause}
      (hb : q.bufferPoisoned = false)
      (hc : q.consult .enqueue errand.entry = (.reject cause, q₁)) :
      Passage q (.phase (.store errand)) (some ⟨.enqueueHookFailed cause, none⟩) q₁
        (.go (.refundFree errand (.hook .enqueue cause)))
  | push {errand : Errand α} {q₁ : Queue α} {ring : Ring (Entry α)}
      (hb : q.bufferPoisoned = false) (hc : q.consult .enqueue errand.entry = (.accept, q₁))
      (hr : q.ring.push? errand.entry = some ring) :
      Passage q (.phase (.store errand)) none ({ q₁ with ring := ring }.note (.pushed errand.entry))
        (.go (.publish errand))
  | refundFree (errand : Errand α) (e : Error) :
      Passage q (.phase (.refundFree errand e)) none
        { q with free := { q.free with permits := q.free.permits + 1 } }
        (.signal .free (.settle errand (some e)))
  | publish (errand : Errand α) :
      Passage q (.phase (.publish errand)) none
        { q with filled := { q.filled with permits := q.filled.permits + 1 } }
        (.signal .filled (.settle errand none))
  | settleRelay : Passage q (.phase (.settle .relay none)) none q (.finish .drained)
  | settleDone (errand : Errand α) (he : errand ≠ .relay) :
      Passage q (.phase (.settle errand none)) none q (.finish .done)
  | settleFarewell (e : Error) :
      Passage q (.phase (.settle .farewell (some e))) (some ⟨.markerFailed e, none⟩) q
        (.finish (.failed e))
  | settleFailed (errand : Errand α) (e : Error) (he : errand ≠ .farewell) :
      Passage q (.phase (.settle errand (some e))) none q (.finish (.failed e))
  -- taking an entry
  | takeFilled {spot : Spot α} (hs : spot.asksFilled = true) (hp : 0 < q.filled.permits) :
      Passage q spot none { q with filled := { q.filled with permits := q.filled.permits - 1 } }
        (.go .fetch)
  | waitFilled {spot : Spot α} (hs : spot.asksFilled = true) (hp : q.filled.permits = 0) :
      Passage q spot none q (.wait .filled .awaitFilled)
  | fetchRefused (hb : q.bufferPoisoned = true) :
      Passage q (.phase .fetch) (some ⟨.bufferPoisoned, none⟩) q
        (.finish (.failed Lock.buffer.error))
  | fetchEmpty (hb : q.bufferPoisoned = false) (hr : q.ring.peek? = none) :
      Passage q (.phase .fetch) (some ⟨.headRefused .ringEmpty, none⟩) q
        (.finish (.failed .ringEmpty))
  | fetchPanicked {head : Entry α} {q₁ : Queue α} {text : String} (hb : q.bufferPoisoned = false)
      (hr : q.ring.peek? = some head) (hc : q.consult .dequeue head = (.panic text, q₁)) :
      Passage q (.phase .fetch) none (q₁.poison .buffer) (.finish (.panicked text))
  | fetchRejected {head : Entry α} {q₁ : Queue α} {cause : Cause} (hb : q.bufferPoisoned = false)
      (hr : q.ring.peek? = some head) (hc : q.consult .dequeue head = (.reject cause, q₁)) :
      Passage q (.phase .fetch) (some ⟨.headRefused (.hook .dequeue cause), none⟩) q₁
        (.go (.refundFilled (.hook .dequeue cause)))
  | popItem {a : α} {q₁ : Queue α} {ring : Ring (Entry α)} (hb : q.bufferPoisoned = false)
      (hc : q.consult .dequeue (.item a) = (.accept, q₁))
      (hr : q.ring.pop? = some (.item a, ring)) :
      Passage q (.phase .fetch) none ({ q₁ with ring := ring }.note (.popped (.item a)))
        (.go (.vacate (.item a)))
  | popAbsorbed {q₁ : Queue α} {ring : Ring (Entry α)} (hb : q.bufferPoisoned = false)
      (hc : q.consult .dequeue .eof = (.accept, q₁)) (hr : q.ring.pop? = some (.eof, ring))
      (hl : ring.isEmpty = false ∨ q.producersPoisoned = false ∧ q.producers ≠ 0) :
      Passage q (.phase .fetch) none
        (({ q₁ with ring := ring }.note (.popped .eof)).note .absorbed) (.go (.vacate .absorbed))
  | popBlind {q₁ : Queue α} {ring : Ring (Entry α)} (hb : q.bufferPoisoned = false)
      (hc : q.consult .dequeue .eof = (.accept, q₁)) (hr : q.ring.pop? = some (.eof, ring))
      (hl : ring.isEmpty = true) (hp : q.producersPoisoned = true) :
      Passage q (.phase .fetch) (some ⟨.producersPoisoned, some .buffer⟩)
        ({ q₁ with ring := ring }.note (.popped .eof)) (.finish (.failed Lock.producers.error))
  | popConcluded {q₁ : Queue α} {ring : Ring (Entry α)} (hb : q.bufferPoisoned = false)
      (hc : q.consult .dequeue .eof = (.accept, q₁)) (hr : q.ring.pop? = some (.eof, ring))
      (hl : ring.isEmpty = true) (hp : q.producersPoisoned = false) (h0 : q.producers = 0) :
      Passage q (.phase .fetch) none
        (({ q₁ with ring := ring }.note (.popped .eof)).note .concluded) (.go (.vacate .concluded))
  | refundFilled (e : Error) :
      Passage q (.phase (.refundFilled e)) none
        { q with filled := { q.filled with permits := q.filled.permits + 1 } }
        (.signal .filled (.fail e))
  | vacate (find : Find α) :
      Passage q (.phase (.vacate find)) none
        { q with free := { q.free with permits := q.free.permits + 1 } }
        (.signal .free (afterVacating find))
  | handOver (a : α) : Passage q (.phase (.handOver a)) none q (.finish (.item a))
  | fail (e : Error) : Passage q (.phase (.fail e)) none q (.finish (.failed e))
  | passOn (hp : 0 < q.free.permits) :
      Passage q (.phase .passOn) (some ⟨.markerPassedOn, none⟩)
        { q with free := { q.free with permits := q.free.permits - 1 } } (.go (.store .relay))
  | leaveOut (hp : q.free.permits = 0) :
      Passage q (.phase .passOn) (some ⟨.markerLeftOut, none⟩) (q.note .leftOut) (.finish .drained)
  -- producers, hooks, and starting afresh
  | raiseRefused (hp : q.producersPoisoned = true) :
      Passage q (.opening .register) (some ⟨.producersPoisoned, none⟩) q
        (.finish (.failed Lock.producers.error))
  | raise (hp : q.producersPoisoned = false) :
      Passage q (.opening .register) (some ⟨.registered (q.producers + 1), some .producers⟩)
        ({ q with producers := q.producers + 1 }.note .raised) (.finish .done)
  | lowerRefused (hp : q.producersPoisoned = true) :
      Passage q (.opening .deregister) (some ⟨.producersPoisoned, none⟩) q
        (.finish (.failed Lock.producers.error))
  | lowerUnmatched (hp : q.producersPoisoned = false) (h0 : q.producers = 0) :
      Passage q (.opening .deregister) (some ⟨.unmatchedDeregister, some .producers⟩) q
        (.finish (.failed .noProducers))
  | lower {n : Nat} (hp : q.producersPoisoned = false) (hn : q.producers = n + 1) :
      Passage q (.opening .deregister) (some ⟨.deregistered n, some .producers⟩)
        ({ q with producers := n }.note .lowered) (.go (.askFree .farewell))
  | installRefused {stage : Stage} {hook : Hook α} (hb : q.bufferPoisoned = true) :
      Passage q (.opening (.install stage hook)) (some ⟨.bufferPoisoned, none⟩) q
        (.finish (.failed Lock.buffer.error))
  | install {stage : Stage} {hook : Hook α} (hb : q.bufferPoisoned = false) :
      Passage q (.opening (.install stage hook)) none (q.setHook stage hook) (.finish .done)
  | clearRefused (hb : q.bufferPoisoned = true) :
      Passage q (.opening .clear) (some ⟨.bufferPoisoned, none⟩) q
        (.finish (.failed Lock.buffer.error))
  | clearHalfway (hb : q.bufferPoisoned = false) (hp : q.producersPoisoned = true) :
      Passage q (.opening .clear) (some ⟨.producersPoisoned, none⟩)
        ({ q with ring := q.ring.clear }.note .emptied) (.finish (.failed Lock.producers.error))
  | clear (hb : q.bufferPoisoned = false) (hp : q.producersPoisoned = false) :
      Passage q (.opening .clear) none
        { q with
          ring := q.ring.clear
          producers := 0
          free := { q.free with permits := q.capacity }
          filled := { q.filled with permits := 0 }
          history := .renewed :: .emptied :: q.history }
        (.finish .done)

/-- A registration is refused, or counts one producer more. -/
theorem Passage.register_cases {q q' : Queue α} {r : Option Remark}
    {move : Move (Phase α) Side (Outcome α)} (h : q.Passage (.opening .register) r q' move) :
    q.producersPoisoned = true ∧ q' = q ∨
      q' = { q with producers := q.producers + 1 }.note .raised ∧ move = .finish .done := by
  cases h with
  | raiseRefused hp => exact .inl ⟨hp, rfl⟩
  | raise => exact .inr ⟨rfl, rfl⟩
  | takeFree hs | waitFree hs | takeFilled hs | waitFilled hs => cases hs

/-- A deregistration is refused, finds nobody to deregister, or counts one producer less and goes on
to put a marker. -/
theorem Passage.deregister_cases {q q' : Queue α} {r : Option Remark}
    {move : Move (Phase α) Side (Outcome α)} (h : q.Passage (.opening .deregister) r q' move) :
    ((q.producersPoisoned = true ∨ q.producers = 0) ∧ q' = q ∧ ∃ e, move = .finish (.failed e)) ∨
      ∃ n, q.producers = n + 1 ∧ q' = { q with producers := n }.note .lowered ∧
        move = .go (.askFree .farewell) := by
  cases h with
  | lowerRefused hp => exact .inl ⟨.inl hp, rfl, _, rfl⟩
  | lowerUnmatched _ h0 => exact .inl ⟨.inr h0, rfl, _, rfl⟩
  | lower _ hn => exact .inr ⟨_, hn, rfl, rfl⟩
  | takeFree hs | waitFree hs | takeFilled hs | waitFilled hs => cases hs

/-- A call waits only for a permit of which there is none. -/
theorem Passage.empty_of_wait {q q' : Queue α} {spot : Spot α} {r : Option Remark} {on : Side}
    {retry : Phase α} (h : Passage q spot r q' (.wait on retry)) :
    on = .free ∧ (∃ errand, spot.asksFree = some errand) ∧ q.free.permits = 0 ∨
      on = .filled ∧ spot.asksFilled = true ∧ q.filled.permits = 0 := by
  cases h with
  | waitFree hs ha h0 => exact .inl ⟨rfl, ⟨_, hs⟩, h0⟩
  | waitFilled hs h0 => exact .inr ⟨rfl, hs, h0⟩

/-- Who asks for a free permit gets one if there is one.  If not, an attempt is over, and any other
call waits. -/
theorem Passage.of_asksFree {q q' : Queue α} {spot : Spot α} {r : Option Remark}
    {move : Move (Phase α) Side (Outcome α)} {errand : Errand α} (h : Passage q spot r q' move)
    (hs : spot.asksFree = some errand) :
    (0 < q.free.permits ∧ q' = { q with free := { q.free with permits := q.free.permits - 1 } } ∧
        move = .go (.store errand)) ∨
      q.free.permits = 0 ∧ q' = q ∧
        (spot.isAttempt = false ∧ move = .wait .free (.awaitFree errand) ∨
          ∃ a, spot = .opening (.tryEnqueue a) ∧ move = .finish (.full a)) := by
  cases h with
  | takeFree hs' hp =>
    rw [hs'] at hs
    cases hs
    exact .inl ⟨hp, rfl, rfl⟩
  | waitFree hs' ha h0 =>
    rw [hs'] at hs
    cases hs
    exact .inr ⟨h0, rfl, .inl ⟨ha, rfl⟩⟩
  | full a h0 => exact .inr ⟨h0, rfl, .inr ⟨a, rfl, rfl⟩⟩
  | takeFilled hs' | waitFilled hs' => cases (Spot.asksFilled_of_asksFree hs).symm.trans hs'
  | _ => cases hs

/-- Who asks for a filled permit gets one if there is one, and waits if not. -/
theorem Passage.of_asksFilled {q q' : Queue α} {spot : Spot α} {r : Option Remark}
    {move : Move (Phase α) Side (Outcome α)} (h : Passage q spot r q' move)
    (hs : spot.asksFilled = true) :
    (0 < q.filled.permits ∧
        q' = { q with filled := { q.filled with permits := q.filled.permits - 1 } } ∧
        move = .go .fetch) ∨
      q.filled.permits = 0 ∧ q' = q ∧ move = .wait .filled .awaitFilled := by
  cases h with
  | takeFilled _ hp => exact .inl ⟨hp, rfl, rfl⟩
  | waitFilled _ h0 => exact .inr ⟨h0, rfl, rfl⟩
  | takeFree hs' | waitFree hs' => cases (Spot.asksFilled_of_asksFree hs').symm.trans hs
  | _ => cases hs

/-! ## The list is complete -/

/-- Nothing of the queue's own making stands in the way of the section at a spot: no semaphore is
poisoned, a permit that is given back can be counted, and a free permit stands for a free slot. -/
structure Workable (q : Queue α) (spot : Spot α) : Prop where
  free : q.free.poisoned = false
  filled : q.filled.poisoned = false
  freeRoom : spot.burden = .freePermit ∨ spot.burden = .vacantSlot →
    q.free.permits ≠ Semaphore.maxPermits
  filledRoom : spot.burden = .filledPermit ∨ spot.burden = .filledSlot →
    q.filled.permits ≠ Semaphore.maxPermits
  ringRoom : spot.burden = .freePermit → q.ring.len ≠ q.ring.capacity

/-- Some passage leads through the section at a spot. -/
def HasPassage (q : Queue α) (spot : Spot α) (s : Section α) : Prop :=
  ∃ r q' move, Passage q spot r q' move ∧ s = q'.remarked move r

variable {q : Queue α}

theorem hasPassage_takeFree {spot : Spot α} {errand : Errand α} (hf : q.free.poisoned = false)
    (hs : spot.asksFree = some errand) (ha : spot.isAttempt = false) :
    HasPassage q spot (q.takeFree errand) := by
  by_cases hp : q.free.permits = 0
  · exact ⟨_, _, _, .waitFree hs ha hp, by simp [takeFree, Semaphore.take, hf, hp, remarked]⟩
  · exact ⟨_, _, _, .takeFree hs (Nat.pos_of_ne_zero hp),
      by simp [takeFree, Semaphore.take, hf, hp, remarked]⟩

theorem hasPassage_tryFree {a : α} (hf : q.free.poisoned = false) :
    HasPassage q (.opening (.tryEnqueue a)) (q.tryFree a) := by
  by_cases hp : q.free.permits = 0
  · exact ⟨_, _, _, .full a hp, by simp [tryFree, Semaphore.take, hf, hp, remarked]⟩
  · exact ⟨_, _, _, .takeFree rfl (Nat.pos_of_ne_zero hp),
      by simp [tryFree, Semaphore.take, hf, hp, remarked]⟩

theorem hasPassage_takeFilled {spot : Spot α} (hf : q.filled.poisoned = false)
    (hs : spot.asksFilled = true) : HasPassage q spot q.takeFilled := by
  by_cases hp : q.filled.permits = 0
  · exact ⟨_, _, _, .waitFilled hs hp, by simp [takeFilled, Semaphore.take, hf, hp, remarked]⟩
  · exact ⟨_, _, _, .takeFilled hs (Nat.pos_of_ne_zero hp),
      by simp [takeFilled, Semaphore.take, hf, hp, remarked]⟩

/-- A hook that is shown an entry leaves everything but itself and the history alone. -/
theorem exists_of_consult {stage : Stage} {entry : Entry α} {v : Verdict} {q₁ : Queue α}
    (h : q.consult stage entry = (v, q₁)) :
    ∃ onEnqueue onDequeue notes, (notes = [] ∧ v = .accept ∨ notes = [.consulted stage entry v]) ∧
      q₁ = { q with
        onEnqueue := onEnqueue, onDequeue := onDequeue, history := notes ++ q.history } := by
  unfold consult at h
  split at h
  · cases h; exact ⟨_, _, [], .inl ⟨rfl, rfl⟩, rfl⟩
  · cases h
    cases stage
    · exact ⟨_, _, [_], .inr rfl, rfl⟩
    · exact ⟨_, _, [_], .inr rfl, rfl⟩

/-- If anything is noted when a hook is shown an entry, it is just that. -/
theorem eq_of_shown {stage : Stage} {entry : Entry α} {v : Verdict} {notes : List (Note α)}
    {n : Note α} (h : notes = [] ∧ v = .accept ∨ notes = [.consulted stage entry v])
    (hn : n ∈ notes) : n = .consulted stage entry v := by
  rcases h with ⟨rfl, -⟩ | rfl
  · cases hn
  · exact List.mem_singleton.1 hn

theorem hasPassage_store {errand : Errand α} (hr : q.ring.len ≠ q.ring.capacity) :
    HasPassage q (.phase (.store errand)) (q.store errand) := by
  unfold store
  split
  · next hb => exact ⟨_, _, _, .storeRefused errand hb, rfl⟩
  · next hb =>
    have hb : q.bufferPoisoned = false := by simpa using hb
    split
    · next text q₁ hc => exact ⟨_, _, _, .storePanicked hb hc, rfl⟩
    · next cause q₁ hc => exact ⟨_, _, _, .storeRejected hb hc, rfl⟩
    · next q₁ hc =>
      obtain ⟨onE, onD, notes, -, rfl⟩ := exists_of_consult hc
      split
      · next ring hring => exact ⟨_, _, _, .push hb hc hring, rfl⟩
      · next hring => exact absurd ((Ring.push?_eq_none_iff _ _).1 hring) hr

theorem hasPassage_settle (errand : Errand α) (e? : Option Error) :
    HasPassage q (.phase (.settle errand e?)) (q.settle errand e?) := by
  cases e? with
  | none =>
    by_cases he : errand = .relay
    · subst he; exact ⟨_, _, _, .settleRelay, rfl⟩
    · refine ⟨_, _, _, .settleDone errand he, ?_⟩
      cases errand <;> simp_all [settle, remarked]
  | some e =>
    by_cases he : errand = .farewell
    · subst he; exact ⟨_, _, _, .settleFarewell e, rfl⟩
    · refine ⟨_, _, _, .settleFailed errand e he, ?_⟩
      cases errand <;> simp_all [settle, remarked]

/-- What a popped entry means is decided in the section of the pop. -/
theorem hasPassage_weigh {entry : Entry α} {q₁ q₂ : Queue α} {ring : Ring (Entry α)}
    (hb : q.bufferPoisoned = false) (hc : q.consult .dequeue entry = (.accept, q₁))
    (hr : q.ring.pop? = some (entry, ring))
    (hq : q₂ = { q₁ with ring := ring }.note (.popped entry)) :
    HasPassage q (.phase .fetch) (q₂.weigh entry) := by
  have hring : q₂.ring = ring := hq ▸ rfl
  have hsame : q₂.producersPoisoned = q.producersPoisoned ∧ q₂.producers = q.producers := by
    obtain ⟨onE, onD, notes, -, rfl⟩ := exists_of_consult hc
    rw [hq]
    exact ⟨rfl, rfl⟩
  cases entry with
  | item a => exact ⟨_, _, _, .popItem hb hc hr, hq ▸ rfl⟩
  | eof =>
    rw [weigh, hring, hsame.1, hsame.2]
    by_cases hl : ring.isEmpty = true
    · rw [if_neg (by simpa using hl)]
      by_cases hp : q.producersPoisoned = true
      · rw [if_pos hp]
        exact ⟨_, _, _, .popBlind hb hc hr hl hp, hq ▸ rfl⟩
      · rw [if_neg hp]
        have hp : q.producersPoisoned = false := by simpa using hp
        by_cases h0 : q.producers = 0
        · rw [if_pos h0]
          exact ⟨_, _, _, .popConcluded hb hc hr hl hp h0, hq ▸ rfl⟩
        · rw [if_neg h0]
          exact ⟨_, _, _, .popAbsorbed hb hc hr (.inr ⟨hp, h0⟩), hq ▸ rfl⟩
    · rw [if_pos (by simpa using hl)]
      exact ⟨_, _, _, .popAbsorbed hb hc hr (.inl (by simpa using hl)), hq ▸ rfl⟩

theorem hasPassage_fetch : HasPassage q (.phase .fetch) q.fetch := by
  unfold fetch
  split
  · next hb => exact ⟨_, _, _, .fetchRefused hb, rfl⟩
  · next hb =>
    have hb : q.bufferPoisoned = false := by simpa using hb
    split
    · next hr => exact ⟨_, _, _, .fetchEmpty hb hr, rfl⟩
    · next head hr =>
      split
      · next text q₁ hc => exact ⟨_, _, _, .fetchPanicked hb hr hc, rfl⟩
      · next cause q₁ hc => exact ⟨_, _, _, .fetchRejected hb hr hc, rfl⟩
      · next q₁ hc =>
        have hring : q₁.ring = q.ring := by
          obtain ⟨onE, onD, notes, -, rfl⟩ := exists_of_consult hc
          rfl
        split
        · next hp => simp [hring, Ring.pop?, hr] at hp
        · next entry ring hp =>
          have hp : q.ring.pop? = some (entry, ring) := hring ▸ hp
          have hhead : entry = head :=
            Option.some_inj.1 ((Ring.peek?_of_pop hp).symm.trans hr)
          exact hasPassage_weigh hb (hhead ▸ hc) hp rfl

theorem hasPassage_passOn (hf : q.free.poisoned = false) :
    HasPassage q (.phase .passOn) q.passOn := by
  by_cases hp : q.free.permits = 0
  · exact ⟨_, _, _, .leaveOut hp, by simp [passOn, Semaphore.take, hf, hp, remarked]⟩
  · exact ⟨_, _, _, .passOn (Nat.pos_of_ne_zero hp),
      by simp [passOn, Semaphore.take, hf, hp, remarked]⟩

theorem hasPassage_raise : HasPassage q (.opening .register) q.raise := by
  unfold raise
  split
  · next hp => exact ⟨_, _, _, .raiseRefused hp, rfl⟩
  · next hp => exact ⟨_, _, _, .raise (by simpa using hp), rfl⟩

theorem hasPassage_lower : HasPassage q (.opening .deregister) q.lower := by
  unfold lower
  split
  · next hp => exact ⟨_, _, _, .lowerRefused hp, rfl⟩
  · next hp =>
    have hp : q.producersPoisoned = false := by simpa using hp
    split
    · next h0 => exact ⟨_, _, _, .lowerUnmatched hp h0, rfl⟩
    · next n hn => exact ⟨_, _, _, .lower hp hn, rfl⟩

theorem hasPassage_install (stage : Stage) (hook : Hook α) :
    HasPassage q (.opening (.install stage hook)) (q.install stage hook) := by
  unfold install
  split
  · next hb => exact ⟨_, _, _, .installRefused hb, rfl⟩
  · next hb => exact ⟨_, _, _, .install (by simpa using hb), rfl⟩

theorem hasPassage_clear (hf : q.free.poisoned = false) (hg : q.filled.poisoned = false) :
    HasPassage q (.opening .clear) q.clear := by
  unfold clear
  split
  · next hb => exact ⟨_, _, _, .clearRefused hb, rfl⟩
  · next hb =>
    have hb : q.bufferPoisoned = false := by simpa using hb
    by_cases hp : q.producersPoisoned = true
    · exact ⟨_, _, _, .clearHalfway hb hp, by simp [note, hp]; rfl⟩
    · refine ⟨_, _, _, .clear hb (by simpa using hp), ?_⟩
      simp [note, hp, resetThen, Semaphore.reset?, semaphore, setSemaphore, hf, hg, remarked]

/-- **Every section is one of the listed passages.** -/
theorem exists_passage {spot : Spot α} (h : q.Workable spot) :
    HasPassage q spot (q.sectionAt spot) := by
  obtain ⟨hf, hg, hfree, hfilled, hring⟩ := h
  cases spot with
  | opening c =>
    cases c with
    | enqueue a => exact hasPassage_takeFree hf rfl rfl
    | tryEnqueue a => exact hasPassage_tryFree hf
    | dequeue => exact hasPassage_takeFilled hg rfl
    | register => exact hasPassage_raise
    | deregister => exact hasPassage_lower
    | install stage hook => exact hasPassage_install stage hook
    | clear => exact hasPassage_clear hf hg
  | phase p =>
    cases p with
    | askFree errand => exact hasPassage_takeFree hf rfl rfl
    | awaitFree errand => exact hasPassage_takeFree hf rfl rfl
    | store errand => exact hasPassage_store (hring rfl)
    | refundFree errand e =>
      refine ⟨_, _, _, .refundFree errand e, ?_⟩
      simp [sectionAt, resume, release, semaphore, setSemaphore, Semaphore.give, hf,
        hfree (.inl rfl), remarked]
    | publish errand =>
      refine ⟨_, _, _, .publish errand, ?_⟩
      simp [sectionAt, resume, release, semaphore, setSemaphore, Semaphore.give, hg,
        hfilled (.inr rfl), remarked]
    | settle errand e? => exact hasPassage_settle errand e?
    | askFilled => exact hasPassage_takeFilled hg rfl
    | awaitFilled => exact hasPassage_takeFilled hg rfl
    | fetch => exact hasPassage_fetch
    | refundFilled e =>
      refine ⟨_, _, _, .refundFilled e, ?_⟩
      simp [sectionAt, resume, release, semaphore, setSemaphore, Semaphore.give, hg,
        hfilled (.inl rfl), remarked]
    | vacate find =>
      refine ⟨_, _, _, .vacate find, ?_⟩
      simp [sectionAt, resume, release, semaphore, setSemaphore, Semaphore.give, hf,
        hfree (.inr rfl), remarked]
    | handOver a => exact ⟨_, _, _, .handOver a, rfl⟩
    | fail e => exact ⟨_, _, _, .fail e, rfl⟩
    | passOn => exact hasPassage_passOn hf

end Queue

end BoundedQueue
