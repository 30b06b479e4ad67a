import BoundedQueue.Proofs.Queue.Flow
import BoundedQueue.Proofs.Queue.Promises

/-!
# Calls that fail at a hook

A hook can stop a call at three places: before its entry is pushed, before an entry is popped, and
before the marker of a consumer at the end of input is put back.  By then the call has a permit in
hand, and a consumer may have popped markers before.

* `Passes` is the rest of a call that does not wait, section by section, from a spot to its outcome.
  Nothing happens to the queue between two sections but that records are written.
* `Returns` says that the rest of a call has touched neither the slots nor the producers, and has
  returned so many permits of either kind.
* `Absorbs` says that the rest of a consumer's call has popped so many markers and nothing else, and
  has moved a permit for each of them.  The number of markers is not known from the spot, so that
  `Passes.absorbs` is by induction on the rest of the call; `Spot.Seeks` are the spots at which the
  induction hypothesis is needed.
* For every other spot from which a call can come to such a failure there is a lemma that says what
  the rest does, later spots first: `Passes.of_settle`, `Passes.of_store` and so on.

`Passes.leftBy` puts them together for a call as a whole.  A deregistration has lowered the count by
then, which is not undone, and the last marker of the input is lost if it is not let back in.
-/

set_option autoImplicit false

namespace BoundedQueue

variable {α : Type}

/-- The ring without the `n` markers at its head, if it has that many there. -/
def Ring.dropMarkers : Nat → Ring (Entry α) → Option (Ring (Entry α))
  | 0, r => some r
  | n + 1, r =>
    match r.pop? with
    | some (.eof, rest) => dropMarkers n rest
    | _ => none

theorem Ring.contents_of_dropMarkers {n : Nat} {r rest : Ring (Entry α)} (hr : r.Sound)
    (h : r.dropMarkers n = some rest) :
    r.contents = List.replicate n .eof ++ rest.contents := by
  induction n generalizing r with
  | zero => cases h; rfl
  | succ n ih =>
    rw [dropMarkers] at h
    split at h
    · next popped hpop =>
      rw [hr.contents_pop hpop, ih (hr.pop hpop) h]
      rfl
    · cases h

/-- Where a call goes on after a section, unless it waits there. -/
def Move.next? {κ ι ρ : Type} : Move κ ι ρ → Option κ
  | .go next | .signal _ next => some next
  | .wait _ _ | .finish _ => none

/-- The call that begins at a spot.  A call of an iteration that is not its first begins where it
asks for a permit. -/
def Spot.begun? : Spot α → Option (Call α)
  | opening c => some c
  | phase .askFilled => some .dequeue
  | _ => none

/-- Where a consumer stands that has no item in hand yet, and the permits that it holds there. -/
inductive Spot.Seeks : Spot α → (free filled : Nat) → Prop where
  | ask {spot : Spot α} (h : spot.asksFilled = true) : Seeks spot 0 0
  | fetch : Seeks (.phase .fetch) 0 1
  /-- A marker is absorbed, and its slot is to be given free. -/
  | vacate : Seeks (.phase (.vacate .absorbed)) 1 0

namespace Queue

/-- The rest of a call from a spot to its outcome, without waiting.  Between two sections nothing
happens to the queue but that records are written. -/
inductive Passes : Queue α → Spot α → Outcome α → Queue α → Prop where
  | finish {q q' : Queue α} {spot : Spot α} {r : Option Remark} {o : Outcome α} (log : Logbook)
      (h : Passage q spot r q' (.finish o)) : Passes q spot o { q' with log := log }
  | step {q q₁ q' : Queue α} {spot : Spot α} {r : Option Remark}
      {move : Move (Phase α) Side (Outcome α)} {p : Phase α} {o : Outcome α} (log : Logbook)
      (h : Passage q spot r q₁ move) (hnext : move.next? = some p)
      (hrest : Passes { q₁ with log := log } (.phase p) o q') : Passes q spot o q'

/-- The rest of a call has not touched the slots and the producers, and has returned so many
permits. -/
structure Returns (q q' : Queue α) (free filled : Nat) : Prop where
  ring_eq : q'.ring = q.ring
  free_eq : q'.free.permits = q.free.permits + free
  filled_eq : q'.filled.permits = q.filled.permits + filled
  producers_eq : q'.producers = q.producers
  bufferPoisoned_eq : q'.bufferPoisoned = q.bufferPoisoned
  producersPoisoned_eq : q'.producersPoisoned = q.producersPoisoned
  history_eq : ∃ notes, q'.history = notes ++ q.history ∧ notes.countP Note.isAbsorbed = 0

/-- The markers that a consumer has popped for good when it fails at a hook, but not absorbed: the
last one, if that is to be put back. -/
def lastMarkers : Stage → Nat
  | .dequeue => 0
  | .enqueue => 1

/-- The rest of a consumer's call that has failed at a hook has popped so many markers and nothing
else.  It has moved a permit for each of them, and has returned so many permits besides. -/
structure Absorbs (q q' : Queue α) (stage : Stage) (cause : Cause)
    (markers free filled : Nat) : Prop where
  ring_eq : q.ring.dropMarkers markers = some q'.ring
  free_eq : q'.free.permits = q.free.permits + markers + free
  filled_eq : q'.filled.permits + markers = q.filled.permits + filled
  producers_eq : q'.producers = q.producers
  bufferPoisoned_eq : q'.bufferPoisoned = q.bufferPoisoned
  producersPoisoned_eq : q'.producersPoisoned = q.producersPoisoned
  history_eq : ∃ notes, q'.history = notes ++ q.history ∧
    notes.countP Note.isAbsorbed + lastMarkers stage = markers
  /-- What was rejected on its way out is still at the head. -/
  rejected : stage = .dequeue → ∃ entry, q'.ring.peek? = some entry ∧
    q'.history.head? = some (.consulted .dequeue entry (.reject cause))
  isEmpty : stage = .enqueue → q'.ring.isEmpty = true

variable {q q' : Queue α} {stage : Stage} {cause : Cause} {errand : Errand α} {e : Error}

theorem Returns.refl (q : Queue α) (log : Logbook) : q.Returns { q with log := log } 0 0 :=
  ⟨rfl, rfl, rfl, rfl, rfl, rfl, [], rfl, rfl⟩

/-- Showing an entry to a hook touches neither slots nor permits. -/
theorem Returns.consult {entry : Entry α} {v : Verdict} {q₁ : Queue α} {log : Logbook}
    {free filled : Nat} (h : Returns { q₁ with log := log } q' free filled)
    (hc : q.consult stage entry = (v, q₁)) : q.Returns q' free filled := by
  obtain ⟨onE, onD, notes, hnotes, rfl⟩ := exists_of_consult hc
  obtain ⟨more, hmore, hcount⟩ := h.history_eq
  refine { h with history_eq := ⟨more ++ notes, hmore.trans (List.append_assoc _ _ _).symm, ?_⟩ }
  rcases hnotes with ⟨rfl, -⟩ | rfl <;> simp [hcount, Note.isAbsorbed]

namespace Passes

/-! ### Putting an entry -/

theorem of_settle {e? : Option Error}
    (h : Passes q (.phase (.settle errand e?)) (.failed (.hook stage cause)) q') :
    e? = some (.hook stage cause) ∧ q.Returns q' 0 0 := by
  cases h with
  | finish log h =>
    cases h with
    | settleFarewell | settleFailed => exact ⟨rfl, .refl q log⟩
  | step log h hnext =>
    cases h with
    | takeFree hs | waitFree hs | takeFilled hs | waitFilled hs => cases hs
    | _ => cases hnext

/-- Once its entry is pushed, a call does not fail at a hook. -/
theorem not_of_publish (h : Passes q (.phase (.publish errand)) (.failed (.hook stage cause)) q') :
    False := by
  cases h with
  | finish log h => cases h
  | step log h hnext hrest =>
    cases h with
    | publish => cases hnext; cases hrest.of_settle.1
    | takeFree hs | waitFree hs | takeFilled hs | waitFilled hs => cases hs

theorem of_refundFree
    (h : Passes q (.phase (.refundFree errand e)) (.failed (.hook stage cause)) q') :
    e = .hook stage cause ∧ q.Returns q' 1 0 := by
  cases h with
  | finish log h => cases h
  | step log h hnext hrest =>
    cases h with
    | refundFree =>
      cases hnext
      obtain ⟨he, hret⟩ := hrest.of_settle
      exact ⟨Option.some_inj.1 he, { hret with }⟩
    | takeFree hs | waitFree hs | takeFilled hs | waitFilled hs => cases hs

/-- With a free permit in hand, only the enqueue hook can stop a call, and the permit is returned.
-/
theorem of_store (h : Passes q (.phase (.store errand)) (.failed (.hook stage cause)) q') :
    stage = .enqueue ∧ q.Returns q' 1 0 := by
  cases h with
  | finish log h => cases h
  | step log h hnext hrest =>
    cases h with
    | storeRefused => cases hnext; cases hrest.of_settle.1
    | storePanicked => cases hnext
    | storeRejected hb hc =>
      cases hnext
      obtain ⟨he, hret⟩ := hrest.of_refundFree
      cases he
      exact ⟨rfl, hret.consult hc⟩
    | push => cases hnext; exact hrest.not_of_publish.elim
    | takeFree hs | waitFree hs | takeFilled hs | waitFilled hs => cases hs

theorem of_asksFree {spot : Spot α} (hs : spot.asksFree = some errand)
    (h : Passes q spot (.failed (.hook stage cause)) q') :
    stage = .enqueue ∧ q.Returns q' 0 0 := by
  cases h with
  | finish log h =>
    rcases h.of_asksFree hs with ⟨-, -, hmove⟩ | ⟨-, -, ⟨-, hmove⟩ | ⟨a, -, hmove⟩⟩ <;> cases hmove
  | step log h hnext hrest =>
    rcases h.of_asksFree hs with ⟨hpos, rfl, rfl⟩ | ⟨-, -, ⟨-, rfl⟩ | ⟨a, -, rfl⟩⟩
    · cases hnext
      obtain ⟨hstage, hret⟩ := hrest.of_store
      exact ⟨hstage, { hret with free_eq := hret.free_eq.trans (Nat.sub_add_cancel hpos) }⟩
    · cases hnext
    · cases hnext

theorem of_passOn (h : Passes q (.phase .passOn) (.failed (.hook stage cause)) q') :
    stage = .enqueue ∧ q.Returns q' 0 0 := by
  cases h with
  | finish log h => cases h
  | step log h hnext hrest =>
    cases h with
    | passOn hpos =>
      cases hnext
      obtain ⟨hstage, hret⟩ := hrest.of_store
      exact ⟨hstage, { hret with free_eq := hret.free_eq.trans (Nat.sub_add_cancel hpos) }⟩
    | leaveOut => cases hnext
    | takeFree hs | waitFree hs | takeFilled hs | waitFilled hs => cases hs

/-- The count is lowered before the marker is put, and not raised again when that fails. -/
theorem of_deregister (h : Passes q (.opening .deregister) (.failed (.hook stage cause)) q') :
    stage = .enqueue ∧ ∃ n, q.producers = n + 1 ∧ { q with producers := n }.Returns q' 0 0 := by
  cases h with
  | finish log h => cases h
  | step log h hnext hrest =>
    cases h with
    | lower hp hn =>
      cases hnext
      obtain ⟨hstage, hret⟩ := hrest.of_asksFree rfl
      obtain ⟨notes, hnotes, hcount⟩ := hret.history_eq
      refine ⟨hstage, _, hn, { hret with history_eq := ⟨notes ++ [.lowered], ?_, ?_⟩ }⟩
      · rw [List.append_assoc]; exact hnotes
      · rw [List.countP_append, hcount]; rfl
    | lowerRefused | lowerUnmatched => cases hnext
    | takeFree hs | waitFree hs | takeFilled hs | waitFilled hs => cases hs

/-! ### Taking an entry -/

theorem of_fail (h : Passes q (.phase (.fail e)) (.failed (.hook stage cause)) q') :
    e = .hook stage cause ∧ q.Returns q' 0 0 ∧ q'.history = q.history := by
  cases h with
  | finish log h =>
    cases h with
    | fail => exact ⟨rfl, .refl q log, rfl⟩
  | step log h hnext =>
    cases h with
    | takeFree hs | waitFree hs | takeFilled hs | waitFilled hs => cases hs
    | _ => cases hnext

theorem of_refundFilled
    (h : Passes q (.phase (.refundFilled e)) (.failed (.hook stage cause)) q') :
    e = .hook stage cause ∧ q.Returns q' 0 1 ∧ q'.history = q.history := by
  cases h with
  | finish log h => cases h
  | step log h hnext hrest =>
    cases h with
    | refundFilled =>
      cases hnext
      obtain ⟨he, hret, hhistory⟩ := hrest.of_fail
      exact ⟨he, { hret with }, hhistory⟩
    | takeFree hs | waitFree hs | takeFilled hs | waitFilled hs => cases hs

/-- A call that has an item in hand does not fail any more. -/
theorem not_of_vacate_item {a : α}
    (h : Passes q (.phase (.vacate (.item a))) (.failed (.hook stage cause)) q') : False := by
  cases h with
  | finish log h => cases h
  | step log h hnext hrest =>
    cases h with
    | vacate =>
      cases hnext
      cases hrest with
      | finish log h => cases h
      | step log h hnext =>
        cases h with
        | takeFree hs | waitFree hs | takeFilled hs | waitFilled hs => cases hs
        | _ => cases hnext
    | takeFree hs | waitFree hs | takeFilled hs | waitFilled hs => cases hs

theorem of_vacate_concluded
    (h : Passes q (.phase (.vacate .concluded)) (.failed (.hook stage cause)) q') :
    stage = .enqueue ∧ q.Returns q' 1 0 := by
  cases h with
  | finish log h => cases h
  | step log h hnext hrest =>
    cases h with
    | vacate =>
      cases hnext
      obtain ⟨hstage, hret⟩ := hrest.of_passOn
      exact ⟨hstage, { hret with }⟩
    | takeFree hs | waitFree hs | takeFilled hs | waitFilled hs => cases hs

/-- A head that is rejected stays where it is. -/
theorem absorbs_of_rejected {cause' : Cause} {head : Entry α} {q₁ : Queue α} {log : Logbook}
    (hr : q.ring.peek? = some head) (hc : q.consult .dequeue head = (.reject cause', q₁))
    (h : Passes { q₁ with log := log } (.phase (.refundFilled (.hook .dequeue cause')))
      (.failed (.hook stage cause)) q') : q.Absorbs q' stage cause 0 0 1 := by
  obtain ⟨he, hret, hhistory⟩ := h.of_refundFilled
  cases he
  have hback := hret.consult hc
  obtain ⟨onE, onD, notes, ⟨-, hv⟩ | rfl, rfl⟩ := exists_of_consult hc
  · cases hv
  · exact { hback with
      ring_eq := congrArg some hback.ring_eq.symm
      rejected := fun _ => ⟨head, hback.ring_eq ▸ hr, by rw [hhistory]; rfl⟩
      isEmpty := nofun }

/-- A marker that is absorbed is one more, and its slot is free until its permit is given. -/
theorem absorbs_of_popped {q₁ : Queue α} {ring : Ring (Entry α)} {log : Logbook} {markers : Nat}
    (hc : q.consult .dequeue .eof = (.accept, q₁)) (hr : q.ring.pop? = some (.eof, ring))
    (h : Absorbs { ({ q₁ with ring := ring }.note (.popped .eof)).note .absorbed with log := log }
      q' stage cause markers 1 0) : q.Absorbs q' stage cause (markers + 1) 0 1 := by
  obtain ⟨onE, onD, shown, hshown, rfl⟩ := exists_of_consult hc
  obtain ⟨notes, hnotes, hcount⟩ := h.history_eq
  refine { h with
    ring_eq := by rw [Ring.dropMarkers, hr]; exact h.ring_eq
    free_eq := h.free_eq.trans (Nat.add_assoc _ _ _)
    filled_eq := congrArg (· + 1) h.filled_eq
    history_eq := ⟨notes ++ .absorbed :: .popped .eof :: shown, ?_, ?_⟩ }
  · rw [hnotes, List.append_assoc]; rfl
  · rw [← hcount, List.countP_append]
    have hone : (Note.absorbed :: .popped .eof :: shown).countP Note.isAbsorbed = 1 := by
      rcases hshown with ⟨rfl, -⟩ | rfl <;> rfl
    rw [hone, Nat.add_right_comm]

/-- The last marker is popped, and its permit is given before it is to be put back. -/
theorem absorbs_of_concluded {q₁ : Queue α} {ring : Ring (Entry α)} {log : Logbook}
    (hc : q.consult .dequeue .eof = (.accept, q₁)) (hr : q.ring.pop? = some (.eof, ring))
    (hl : ring.isEmpty = true)
    (h : Passes { ({ q₁ with ring := ring }.note (.popped .eof)).note .concluded with log := log }
      (.phase (.vacate .concluded)) (.failed (.hook stage cause)) q') :
    q.Absorbs q' stage cause 1 0 1 := by
  obtain ⟨rfl, hret⟩ := h.of_vacate_concluded
  obtain ⟨onE, onD, shown, hshown, rfl⟩ := exists_of_consult hc
  obtain ⟨notes, hnotes, hcount⟩ := hret.history_eq
  refine { hret with
    ring_eq := by rw [Ring.dropMarkers, hr]; exact congrArg some hret.ring_eq.symm
    filled_eq := congrArg (· + 1) hret.filled_eq
    history_eq := ⟨notes ++ .concluded :: .popped .eof :: shown, ?_, ?_⟩
    rejected := nofun
    isEmpty := fun _ => hret.ring_eq.symm ▸ hl }
  · rw [hnotes, List.append_assoc]; rfl
  · rw [List.countP_append, hcount]
    rcases hshown with ⟨rfl, -⟩ | rfl <;> rfl

/-- **A consumer that fails at a hook undoes what it did but for the markers.** -/
theorem absorbs {spot : Spot α} {free filled : Nat} (hs : spot.Seeks free filled)
    (h : Passes q spot (.failed (.hook stage cause)) q') :
    ∃ markers, q.Absorbs q' stage cause markers free filled := by
  generalize ho : Outcome.failed (.hook stage cause) = o at h
  induction h generalizing free filled with
  | finish log h =>
    subst ho
    cases hs with
    | ask hs => rcases h.of_asksFilled hs with ⟨-, -, hmove⟩ | ⟨-, -, hmove⟩ <;> cases hmove
    | fetch | vacate => cases h
  | step log h hnext hrest ih =>
    subst ho
    cases hs with
    | ask hs =>
      rcases h.of_asksFilled hs with ⟨hpos, rfl, rfl⟩ | ⟨-, -, rfl⟩
      · cases hnext
        obtain ⟨markers, hm⟩ := ih .fetch rfl
        exact ⟨markers, { hm with filled_eq := hm.filled_eq.trans (Nat.sub_add_cancel hpos) }⟩
      · cases hnext
    | fetch =>
      cases h with
      | fetchRejected hb hr hc => cases hnext; exact ⟨0, absorbs_of_rejected hr hc hrest⟩
      | popItem => cases hnext; exact hrest.not_of_vacate_item.elim
      | popAbsorbed hb hc hr =>
        cases hnext
        obtain ⟨markers, hm⟩ := ih .vacate rfl
        exact ⟨markers + 1, absorbs_of_popped hc hr hm⟩
      | popConcluded hb hc hr hl =>
        cases hnext; exact ⟨1, absorbs_of_concluded hc hr hl hrest⟩
      | fetchRefused | fetchEmpty | fetchPanicked | popBlind => cases hnext
      | takeFree hs | waitFree hs | takeFilled hs | waitFilled hs => cases hs
    | vacate =>
      cases h with
      | vacate =>
        cases hnext
        obtain ⟨markers, hm⟩ := ih (.ask rfl) rfl
        exact ⟨markers, { hm with free_eq := hm.free_eq.trans (Nat.add_right_comm _ 1 markers) }⟩
      | takeFree hs | waitFree hs | takeFilled hs | waitFilled hs => cases hs

end Passes

/-! ### Calls -/

/-- What a call that failed at a hook has left of the queue that it began with. -/
def LeftBy (q q' : Queue α) (stage : Stage) (cause : Cause) : Call α → Prop
  | .enqueue _ | .tryEnqueue _ => stage = .enqueue ∧ q.Returns q' 0 0
  | .deregister =>
    stage = .enqueue ∧ ∃ n, q.producers = n + 1 ∧ { q with producers := n }.Returns q' 0 0
  | .dequeue => ∃ markers, q.Absorbs q' stage cause markers 0 0
  -- these show nothing to a hook
  | .register | .install _ _ | .clear => False

/-- A call that failed at a hook has neither put nor taken an item. -/
theorem LeftBy.items_eq {c : Call α} (h : q.LeftBy q' stage cause c) (hr : q.ring.Sound) :
    q'.ring.contents.filterMap Entry.item? = q.ring.contents.filterMap Entry.item? := by
  cases c with
  | enqueue | tryEnqueue => rw [h.2.ring_eq]
  | deregister =>
    obtain ⟨-, n, -, hret⟩ := h
    rw [hret.ring_eq]
  | dequeue =>
    obtain ⟨markers, hm⟩ := h
    rw [Ring.contents_of_dropMarkers hr hm.ring_eq, List.filterMap_append,
      List.filterMap_replicate_of_none rfl, List.nil_append]
  | register | install | clear => exact h.elim

/-- **A call that fails at a hook undoes what it did**, but for the registration that it ended and
the markers that it absorbed. -/
theorem Passes.leftBy {spot : Spot α} {c : Call α} (hs : spot.begun? = some c)
    (h : Passes q spot (.failed (.hook stage cause)) q') : q.LeftBy q' stage cause c := by
  cases spot with
  | phase p =>
    cases p with
    | askFilled => cases hs; exact h.absorbs (.ask rfl)
    | _ => cases hs
  | opening c' =>
    cases hs
    cases c with
    | enqueue | tryEnqueue => exact h.of_asksFree rfl
    | deregister => exact h.of_deregister
    | dequeue => exact h.absorbs (.ask rfl)
    | register | install | clear =>
      cases h with
      | finish log h => cases h
      | step log h hnext =>
        cases h with
        | takeFree hs | waitFree hs | takeFilled hs | waitFilled hs => cases hs
        | _ => cases hnext

end Queue

end BoundedQueue
