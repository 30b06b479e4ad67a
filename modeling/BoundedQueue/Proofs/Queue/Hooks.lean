import BoundedQueue.Proofs.Queue.Faults
import BoundedQueue.Proofs.Queue.Flow

/-!
# What hooks see

A hook is asked before the ring changes, under the same lock.  So that it sees just what happens to
the ring, whatever it accepts has to happen, and nothing may happen that it was not asked about.

* `Passage.consulted` is about one section in which a hook is asked.  What the hook does not accept
  does not happen: the ring stays as it is, and the call goes on to fail, which touches the ring no
  more (`Passage.of_error`).
* `Witnessed` is about the whole history of a queue with both hooks.  Since the ring was emptied,
  the enqueue hook has accepted what was pushed and the dequeue hook what was popped, in order; and
  an entry that the dequeue hook rejected when it was last asked (`lastAsked?`) is still the head.
* `Passage.witnessed` says that no section comes between: every passage keeps it so.
-/

set_option autoImplicit false

namespace BoundedQueue

variable {α : Type}

namespace Note

/-- The entry that the hook at a stage was shown and accepted. -/
def accepted? (stage : Stage) : Note α → Option (Entry α)
  | consulted stage' entry .accept => if stage' = stage then some entry else none
  | _ => none

/-- The entry that the dequeue hook was shown, and what it decided. -/
def asked? : Note α → Option (Entry α × Verdict)
  | consulted .dequeue entry verdict => some (entry, verdict)
  | _ => none

end Note

/-- The entry that the dequeue hook was shown last since the ring was emptied, and what it decided,
in a history that is newest first. -/
def lastAsked? (history : List (Note α)) : Option (Entry α × Verdict) :=
  (recent history).findSome? Note.asked?

namespace Queue

variable {q q' : Queue α} {spot : Spot α} {r : Option Remark}
  {move : Move (Phase α) Side (Outcome α)} {notes : List (Note α)}

/-! ## What comes of asking a hook -/

/-- What comes of a section in which the hook at a stage is shown an entry. -/
structure Consulted (q : Queue α) (spot : Spot α) (r : Option Remark) (q' : Queue α)
    (move : Move (Phase α) Side (Outcome α)) (stage : Stage) (entry : Entry α)
    (verdict : Verdict) : Prop where
  /-- It is the entry that is to be put, or the head of the ring. -/
  place : stage = .enqueue ∧ (∃ errand, spot = .phase (.store errand) ∧ entry = errand.entry) ∨
    stage = .dequeue ∧ spot = .phase .fetch ∧ q.ring.peek? = some entry
  ring_eq : verdict ≠ .accept → q'.ring = q.ring
  /-- Where the hook rejects the entry, the call is to fail, and says so under no lock. -/
  rejected : ∀ cause, verdict = .reject cause →
    (∃ record, r = some ⟨record, none⟩) ∧ move.error? = some (.hook stage cause)
  panicked : ∀ text, verdict = .panic text → move = .finish (.panicked text)

/-- **A hook that does not accept an entry keeps the ring as it is.** -/
theorem Passage.consulted (h : Passage q spot r q' move) (hn : q'.history = notes ++ q.history)
    {stage : Stage} {entry : Entry α} {verdict : Verdict}
    (hm : .consulted stage entry verdict ∈ notes) :
    Consulted q spot r q' move stage entry verdict := by
  have hnotes (notes' : List (Note α)) (hn' : q'.history = notes' ++ q.history) :
      notes' = notes := List.append_cancel_right (hn'.symm.trans hn)
  cases h with
  | storePanicked hb hc =>
    obtain ⟨onE, onD, shown, hshown, rfl⟩ := exists_of_consult hc
    obtain rfl := hnotes shown rfl
    cases eq_of_shown hshown hm
    exact ⟨.inl ⟨rfl, _, rfl, rfl⟩, fun _ => rfl, nofun, fun _ hv => by cases hv; rfl⟩
  | storeRejected hb hc =>
    obtain ⟨onE, onD, shown, hshown, rfl⟩ := exists_of_consult hc
    obtain rfl := hnotes shown rfl
    cases eq_of_shown hshown hm
    exact ⟨.inl ⟨rfl, _, rfl, rfl⟩, fun _ => rfl,
      fun _ hv => by cases hv; exact ⟨⟨_, rfl⟩, rfl⟩, nofun⟩
  | fetchPanicked hb hr hc =>
    obtain ⟨onE, onD, shown, hshown, rfl⟩ := exists_of_consult hc
    obtain rfl := hnotes shown rfl
    cases eq_of_shown hshown hm
    exact ⟨.inr ⟨rfl, rfl, hr⟩, fun _ => rfl, nofun, fun _ hv => by cases hv; rfl⟩
  | fetchRejected hb hr hc =>
    obtain ⟨onE, onD, shown, hshown, rfl⟩ := exists_of_consult hc
    obtain rfl := hnotes shown rfl
    cases eq_of_shown hshown hm
    exact ⟨.inr ⟨rfl, rfl, hr⟩, fun _ => rfl,
      fun _ hv => by cases hv; exact ⟨⟨_, rfl⟩, rfl⟩, nofun⟩
  | push hb hc =>
    obtain ⟨onE, onD, shown, hshown, rfl⟩ := exists_of_consult hc
    obtain rfl := hnotes (_ :: shown) rfl
    simp only [List.mem_cons, reduceCtorEq, false_or] at hm
    cases eq_of_shown hshown hm
    exact ⟨.inl ⟨rfl, _, rfl, rfl⟩, fun hv => absurd rfl hv, nofun, nofun⟩
  | popItem hb hc hr | popBlind hb hc hr =>
    obtain ⟨onE, onD, shown, hshown, rfl⟩ := exists_of_consult hc
    obtain rfl := hnotes (_ :: shown) rfl
    simp only [List.mem_cons, reduceCtorEq, false_or] at hm
    cases eq_of_shown hshown hm
    exact ⟨.inr ⟨rfl, rfl, Ring.peek?_of_pop hr⟩, fun hv => absurd rfl hv, nofun, nofun⟩
  | popAbsorbed hb hc hr | popConcluded hb hc hr =>
    obtain ⟨onE, onD, shown, hshown, rfl⟩ := exists_of_consult hc
    obtain rfl := hnotes (_ :: _ :: shown) rfl
    simp only [List.mem_cons, reduceCtorEq, false_or] at hm
    cases eq_of_shown hshown hm
    exact ⟨.inr ⟨rfl, rfl, Ring.peek?_of_pop hr⟩, fun hv => absurd rfl hv, nofun, nofun⟩
  | raise | lower | leaveOut | clearHalfway =>
    obtain rfl := hnotes [_] rfl
    simp at hm
  | clear =>
    obtain rfl := hnotes [.renewed, .emptied] rfl
    simp at hm
  | @install stage' =>
    obtain rfl := hnotes [] (by cases stage' <;> rfl)
    cases hm
  | _ =>
    obtain rfl := hnotes [] rfl
    cases hm

/-- A call that is going to fail does not touch the ring any more. -/
theorem Passage.of_error (h : Passage q spot r q' move) {p : Phase α} {e : Error}
    (hp : p ∈ spot.phases) (he : p.error? = some e) : q'.ring = q.ring ∧ move.error? = some e := by
  have hspot {p' : Phase α} (hs : spot = .phase p') : p'.error? = some e := by
    rw [hs] at hp
    exact Multiset.mem_singleton.1 hp ▸ he
  cases h with
  | refundFree | settleFarewell | settleFailed | refundFilled | fail => exact ⟨rfl, hspot rfl⟩
  | takeFree hs | waitFree hs =>
    rcases Spot.of_asksFree hs hp with rfl | rfl <;> cases he
  | takeFilled hs | waitFilled hs =>
    rcases Spot.of_asksFilled hs hp with rfl | rfl <;> cases he
  | full | raiseRefused | raise | lowerRefused | lowerUnmatched | lower | installRefused | install
    | clearRefused | clearHalfway | clear => exact absurd hp (Multiset.notMem_zero p)
  | _ => cases hspot rfl

/-! ## What hooks have seen -/

/-- Both hooks are there, and have seen what happened to the ring since it was emptied. -/
structure Witnessed (q : Queue α) : Prop where
  hooked : ∀ stage, (q.hook? stage).isSome = true
  pushed_eq : (recent q.history).filterMap (Note.accepted? .enqueue) =
    (recent q.history).filterMap Note.pushed?
  popped_eq : (recent q.history).filterMap (Note.accepted? .dequeue) =
    (recent q.history).filterMap Note.popped?
  /-- An entry that the dequeue hook rejected, and that it was not asked about again, is the head.
  -/
  refused : ∀ entry cause, lastAsked? q.history = some (entry, .reject cause) →
    q.ring.peek? = some entry

/-- A hook that is there is asked, and stays there. -/
theorem exists_of_consult_hooked {stage : Stage} {entry : Entry α} {v : Verdict} {q₁ : Queue α}
    (hooked : ∀ stage, (q.hook? stage).isSome = true) (h : q.consult stage entry = (v, q₁)) :
    ∃ onE onD, onE.isSome = true ∧ onD.isSome = true ∧
      q₁ = { q with
        onEnqueue := onE, onDequeue := onD, history := .consulted stage entry v :: q.history } := by
  have honE : q.onEnqueue.isSome = true := hooked .enqueue
  have honD : q.onDequeue.isSome = true := hooked .dequeue
  obtain ⟨hook, hhook⟩ := Option.isSome_iff_exists.1 (hooked stage)
  rw [consult, hhook] at h
  cases h
  cases stage with
  | enqueue => exact ⟨_, _, rfl, honD, rfl⟩
  | dequeue => exact ⟨_, _, honE, rfl, rfl⟩

theorem hooked_setHook (hooked : ∀ stage, (q.hook? stage).isSome = true) (stage' : Stage)
    (hook : Hook α) (stage : Stage) : ((q.setHook stage' hook).hook? stage).isSome = true := by
  have honE : q.onEnqueue.isSome = true := hooked .enqueue
  have honD : q.onDequeue.isSome = true := hooked .dequeue
  cases stage' with
  | enqueue =>
    cases stage with
    | enqueue => rfl
    | dequeue => exact honD
  | dequeue =>
    cases stage with
    | enqueue => exact honE
    | dequeue => rfl

/-- A section that does not ask the hooks, and does not touch the ring, leaves no trace. -/
theorem Witnessed.of_same (h : q.Witnessed) (hooked : ∀ stage, (q'.hook? stage).isSome = true)
    (hring : q'.ring = q.ring) (hhistory : q'.history = q.history) : q'.Witnessed := by
  obtain ⟨-, hpushed, hpopped, hrefused⟩ := h
  refine ⟨hooked, ?_, ?_, ?_⟩
  · rw [hhistory, hpushed]
  · rw [hhistory, hpopped]
  · rw [hhistory, hring]
    exact hrefused

/-- **Every passage shows the hooks what it does to the ring**, and does it if they accept. -/
theorem Passage.witnessed (h : Passage q spot r q' move) (hs : q.ring.Sound) (hq : q.Witnessed) :
    q'.Witnessed := by
  obtain ⟨hooked, hpushed, hpopped, hrefused⟩ := hq
  cases h with
  | storePanicked hb hc | storeRejected hb hc =>
    obtain ⟨onE, onD, honE, honD, rfl⟩ := exists_of_consult_hooked hooked hc
    exact ⟨fun stage => by cases stage; exacts [honE, honD], hpushed, hpopped, hrefused⟩
  | @push errand q₁ ring hb hc hr =>
    obtain ⟨onE, onD, honE, honD, rfl⟩ := exists_of_consult_hooked hooked hc
    refine ⟨fun stage => by cases stage; exacts [honE, honD], congrArg (_ :: ·) hpushed, hpopped,
      fun entry cause hlast => ?_⟩
    have hpeek := hrefused entry cause hlast
    show ring.peek? = some entry
    rw [hs.peek?_eq_head?] at hpeek
    rw [(hs.push hr).peek?_eq_head?, hs.contents_push hr, List.head?_append, hpeek]
    rfl
  | fetchPanicked hb hr hc =>
    obtain ⟨onE, onD, honE, honD, rfl⟩ := exists_of_consult_hooked hooked hc
    refine ⟨fun stage => by cases stage; exacts [honE, honD], hpushed, hpopped,
      fun entry cause hlast => ?_⟩
    cases hlast
  | fetchRejected hb hr hc =>
    obtain ⟨onE, onD, honE, honD, rfl⟩ := exists_of_consult_hooked hooked hc
    refine ⟨fun stage => by cases stage; exacts [honE, honD], hpushed, hpopped,
      fun entry cause hlast => ?_⟩
    cases hlast
    exact hr
  | popItem hb hc | popAbsorbed hb hc | popBlind hb hc | popConcluded hb hc =>
    obtain ⟨onE, onD, honE, honD, rfl⟩ := exists_of_consult_hooked hooked hc
    refine ⟨fun stage => by cases stage; exacts [honE, honD], hpushed, congrArg (_ :: ·) hpopped,
      fun entry cause hlast => ?_⟩
    cases hlast
  | @install stage' hook =>
    refine Witnessed.of_same ⟨hooked, hpushed, hpopped, hrefused⟩
      (hooked_setHook hooked stage' hook) ?_ ?_
    · cases stage' <;> rfl
    · cases stage' <;> rfl
  | clear | clearHalfway =>
    exact ⟨hooked, rfl, rfl, fun entry cause hlast => nomatch hlast⟩
  | raise | lower | leaveOut => exact ⟨hooked, hpushed, hpopped, hrefused⟩
  | _ =>
    exact Witnessed.of_same ⟨hooked, hpushed, hpopped, hrefused⟩ hooked rfl rfl

end Queue

end BoundedQueue
