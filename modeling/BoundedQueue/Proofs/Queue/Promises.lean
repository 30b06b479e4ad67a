import BoundedQueue.Proofs.Queue.Markers

/-!
# An account of the markers

A marker is in the ring, or promised: a producer that deregistered is to leave one (`leaving`), and
a consumer that has come upon the end of input is to put one back (`relaying`).  Promises end when
the marker is pushed, when it is left out, and with a call that fails or panics.

* `Passage.tally` is the account of a passage.  The markers in the ring, the promised ones and those
  that the passage uses up, because it absorbs them or leaves them out, are never more than there
  were before and producers deregistered; they are just as many unless the call fails or panics.  So
  passing a marker on does not multiply it.
* `Passage.allMarkers_le` draws the balance since a clearing: there are no more markers than
  producers that left.  What counts as a clearing is a parameter, because a clearing that stops
  half-way empties the ring and does not renew the queue.
* `Unspoilt` is for the balance in the other direction.  As long as no lock is poisoned, no hook
  refuses a marker and nothing panics, no marker is lost (`Unspoilt.passage`).

A call that has failed with its marker in hand still counts as promising it, until it ends.
`Passage.strands_cases` says how a call gets there.
-/

set_option autoImplicit false

namespace BoundedQueue

variable {α : Type}

/-! ## Promises -/

/-- Whether a producer that deregistered is to leave the entry. -/
def Errand.isFarewell : Errand α → Bool
  | farewell => true
  | _ => false

/-- Whether a consumer at the end of input is to put the entry back. -/
def Errand.isRelay : Errand α → Bool
  | relay => true
  | _ => false

/-- The errand of a call that is to put an entry and has not done so.  A call that is about to fail
is over with it only when it ends. -/
def Phase.promise? : Phase α → Option (Errand α)
  | .askFree errand | .awaitFree errand | .store errand | .refundFree errand _
  | .settle errand (some _) => some errand
  | .vacate .concluded | .passOn => some .relay
  | _ => none

/-- Whether a call at a phase is going to fail with a marker that it was to put. -/
def Phase.strandsMarker : Phase α → Bool
  | .refundFree errand _ | .settle errand (some _) => errand.entry.isMarker
  | _ => false

/-- The deregistrations among the calls at the given phases that have not left their marker. -/
def leaving (phases : Multiset (Phase α)) : Nat :=
  phases.countP fun p => p.promise?.any Errand.isFarewell = true

/-- The calls at the given phases that have come upon the end of input and not put a marker back. -/
def relaying (phases : Multiset (Phase α)) : Nat :=
  phases.countP fun p => p.promise?.any Errand.isRelay = true

/-- The markers that calls at the given phases are to put. -/
def promised (phases : Multiset (Phase α)) : Nat := leaving phases + relaying phases

section Promised

variable {spot : Spot α} {p : Phase α} {errand : Errand α}

@[simp] theorem promised_zero : promised (0 : Multiset (Phase α)) = 0 := rfl

@[simp] theorem promised_add (phases others : Multiset (Phase α)) :
    promised (phases + others) = promised phases + promised others := by
  simp only [promised, leaving, relaying, Multiset.countP_add]
  omega

theorem promised_of_none (h : p.promise? = none) : promised {p} = 0 := by
  rw [promised, leaving, relaying, ← Multiset.cons_zero, Multiset.countP_cons, Multiset.countP_cons,
    h]
  rfl

/-- A call is to put a marker if that is its errand. -/
theorem promised_of_some (h : p.promise? = some errand) :
    promised {p} = [errand.entry].countP Entry.isMarker := by
  rw [promised, leaving, relaying, ← Multiset.cons_zero, Multiset.countP_cons, Multiset.countP_cons,
    h]
  cases errand <;> rfl

/-- A call that asks for a free permit is to put its entry; it has just begun if it is an item. -/
theorem promised_of_asksFree (h : spot.asksFree = some errand) :
    promised spot.phases = [errand.entry].countP Entry.isMarker := by
  cases spot with
  | opening c => cases c <;> cases h <;> rfl
  | phase p =>
    rcases Spot.of_asksFree h (Multiset.mem_singleton_self p) with rfl | rfl <;>
      exact promised_of_some rfl

theorem promised_of_asksFilled (h : spot.asksFilled = true) : promised spot.phases = 0 := by
  cases spot with
  | opening c => rfl
  | phase p =>
    rcases Spot.of_asksFilled h (Multiset.mem_singleton_self p) with rfl | rfl <;> rfl

theorem owed_le_promised (phases : Multiset (Phase α)) : owed phases ≤ promised phases := by
  induction phases using Multiset.induction_on with
  | empty => exact Nat.le_refl _
  | cons p phases ih =>
    rw [← Multiset.singleton_add, owed_add, promised_add]
    refine Nat.add_le_add ?_ ih
    rw [owed_singleton]
    by_cases hp : p.owesMarker = true
    · obtain ⟨errand, he, hmarker⟩ : ∃ errand, p.promise? = some errand ∧
          errand.entry.isMarker = true := by
        cases p with
        | askFree | awaitFree | store => exact ⟨_, rfl, hp⟩
        | passOn => exact ⟨.relay, rfl, rfl⟩
        | vacate find =>
          cases find with
          | concluded => exact ⟨.relay, rfl, rfl⟩
          | _ => cases hp
        | _ => cases hp
      rw [promised_of_some he, List.countP_singleton, if_pos hp, if_pos hmarker]
    · rw [if_neg hp]
      exact Nat.zero_le _

end Promised

/-! ## What happens to markers -/

namespace Note

/-- Whether a note is that the ring or the whole queue was cleared. -/
def startsAfresh : Note α → Bool
  | emptied | renewed => true
  | _ => false

/-- Whether a note is that the whole queue was cleared. -/
def isRenewed : Note α → Bool
  | renewed => true
  | _ => false

/-- Whether a note is that a marker was absorbed. -/
def isAbsorbed : Note α → Bool
  | absorbed => true
  | _ => false

/-- Whether a note is that a marker was left out. -/
def isLeftOut : Note α → Bool
  | leftOut => true
  | _ => false

/-- Whether a note is that a marker was absorbed or left out. -/
def usesUpMarker : Note α → Bool
  | absorbed | leftOut => true
  | _ => false

theorem countP_usesUpMarker (notes : List (Note α)) :
    notes.countP usesUpMarker = notes.countP isAbsorbed + notes.countP isLeftOut := by
  induction notes with
  | nil => rfl
  | cons n notes ih =>
    rw [List.countP_cons, List.countP_cons, List.countP_cons, ih]
    cases n <;> simp [usesUpMarker, isAbsorbed, isLeftOut] <;> omega

end Note

/-- What happened since the whole queue was cleared, or from the beginning, newest first. -/
def sinceRenewal (history : List (Note α)) : List (Note α) :=
  history.takeWhile fun n => !n.isRenewed

namespace Queue

/-- The markers in the ring, and those that calls are to put. -/
def allMarkers (q : Queue α) (phases : Multiset (Phase α)) : Nat :=
  q.ring.contents.countP Entry.isMarker + promised phases

variable {q q' : Queue α} {spot : Spot α} {r : Option Remark}
  {move : Move (Phase α) Side (Outcome α)}

/-- What a passage adds to the history, and what it does with markers. -/
structure Tally (q q' : Queue α) (spot : Spot α) (move : Move (Phase α) Side (Outcome α))
    (notes : List (Note α)) : Prop where
  history_eq : q'.history = notes ++ q.history
  goesOn : ∀ n ∈ notes, n.startsAfresh = false
  markers_le : q'.allMarkers move.phases + notes.countP Note.usesUpMarker ≤
    q.allMarkers spot.phases + notes.countP Note.isLowered
  /-- Nothing is lost where no lock is poisoned and nothing fails or panics. -/
  markers_eq : q.producersPoisoned = false → (∀ p ∈ spot.phases, p.strandsMarker = false) →
    (∀ text, move ≠ .finish (.panicked text)) →
    q'.allMarkers move.phases + notes.countP Note.usesUpMarker =
      q.allMarkers spot.phases + notes.countP Note.isLowered

theorem Tally.of_eq {notes : List (Note α)} (hhistory : q'.history = notes ++ q.history)
    (hgoesOn : ∀ n ∈ notes, n.startsAfresh = false)
    (heq : q'.allMarkers move.phases + notes.countP Note.usesUpMarker =
      q.allMarkers spot.phases + notes.countP Note.isLowered) : Tally q q' spot move notes :=
  ⟨hhistory, hgoesOn, heq.le, fun _ _ _ => heq⟩

/-- Nothing that concerns markers is noted when a hook is shown an entry. -/
theorem markers_of_shown {stage : Stage} {entry : Entry α} {v : Verdict} {notes : List (Note α)}
    (h : notes = [] ∧ v = .accept ∨ notes = [.consulted stage entry v]) :
    (∀ n ∈ notes, n.startsAfresh = false) ∧ notes.countP Note.usesUpMarker = 0 ∧
      notes.countP Note.isLowered = 0 := by
  rcases h with ⟨rfl, -⟩ | rfl
  · exact ⟨nofun, rfl, rfl⟩
  · exact ⟨by simp [Note.startsAfresh], rfl, rfl⟩

/-- **Every passage accounts for the markers.** -/
theorem Passage.tally (h : Passage q spot r q' move) (hring : q.ring.Sound)
    (hc : spot ≠ .opening .clear) : ∃ notes, Tally q q' spot move notes := by
  -- a passage that leaves the ring alone and notes nothing
  have hstay {q' : Queue α} {spot : Spot α} {move : Move (Phase α) Side (Outcome α)}
      (hr : q'.ring = q.ring) (hh : q'.history = q.history)
      (hp : promised move.phases = promised spot.phases) : ∃ notes, Tally q q' spot move notes :=
    ⟨[], .of_eq hh nofun (by rw [allMarkers, allMarkers, hr, hp]; rfl)⟩
  cases h with
  | takeFree hs | waitFree hs =>
    refine hstay rfl rfl ?_
    rw [promised_of_asksFree hs, Move.phases, promised_of_some rfl]
  | takeFilled hs | waitFilled hs =>
    refine hstay rfl rfl ?_
    rw [promised_of_asksFilled hs, Move.phases, promised_of_none rfl]
  | storeRefused | refundFree =>
    refine hstay rfl rfl ?_
    rw [Move.phases, Spot.phases, promised_of_some rfl, promised_of_some rfl]
  | @storePanicked errand _ text hb hcon =>
    obtain ⟨onE, onD, notes, hshown, rfl⟩ := exists_of_consult hcon
    obtain ⟨hgoesOn, hused, -⟩ := markers_of_shown hshown
    refine ⟨notes, rfl, hgoesOn, ?_, fun _ _ hmove => absurd rfl (hmove text)⟩
    rw [hused]
    exact Nat.add_le_add (Nat.add_le_add_left (Nat.zero_le _) _) (Nat.zero_le _)
  | storeRejected hb hcon =>
    obtain ⟨onE, onD, notes, hshown, rfl⟩ := exists_of_consult hcon
    obtain ⟨hgoesOn, hused, hlowered⟩ := markers_of_shown hshown
    refine ⟨notes, .of_eq rfl hgoesOn ?_⟩
    rw [hused, hlowered, allMarkers, allMarkers, Move.phases, Spot.phases, promised_of_some rfl,
      promised_of_some rfl]
  | @push errand _ ring hb hcon hr =>
    obtain ⟨onE, onD, notes, hshown, rfl⟩ := exists_of_consult hcon
    obtain ⟨hgoesOn, hused, hlowered⟩ := markers_of_shown hshown
    refine ⟨.pushed errand.entry :: notes, .of_eq rfl ?_ ?_⟩
    · simpa [Note.startsAfresh] using hgoesOn
    · have hcontents : ring.contents = q.ring.contents ++ [errand.entry] := hring.contents_push hr
      simp only [allMarkers, note, hcontents, List.countP_append, Move.phases, Spot.phases,
        promised_of_none (p := Phase.publish errand) rfl, promised_of_some (p := .store errand) rfl,
        List.countP_cons, hused, hlowered, Note.usesUpMarker, Note.isLowered]
      simp
  | fetchPanicked hb hr hcon | fetchRejected hb hr hcon =>
    obtain ⟨onE, onD, notes, hshown, rfl⟩ := exists_of_consult hcon
    obtain ⟨hgoesOn, hused, hlowered⟩ := markers_of_shown hshown
    refine ⟨notes, .of_eq rfl hgoesOn ?_⟩
    rw [hused, hlowered]
    rfl
  | popItem hb hcon hr =>
    obtain ⟨onE, onD, notes, hshown, rfl⟩ := exists_of_consult hcon
    obtain ⟨hgoesOn, hused, hlowered⟩ := markers_of_shown hshown
    refine ⟨_ :: notes, .of_eq rfl (by simpa [Note.startsAfresh] using hgoesOn) ?_⟩
    simp only [allMarkers, note, hring.contents_pop hr, List.countP_cons, hused, hlowered,
      Entry.isMarker, Note.usesUpMarker, Note.isLowered]
    rfl
  | popAbsorbed hb hcon hr | popConcluded hb hcon hr =>
    obtain ⟨onE, onD, notes, hshown, rfl⟩ := exists_of_consult hcon
    obtain ⟨hgoesOn, hused, hlowered⟩ := markers_of_shown hshown
    refine ⟨_ :: _ :: notes, .of_eq rfl (by simpa [Note.startsAfresh] using hgoesOn) ?_⟩
    simp only [allMarkers, note, hring.contents_pop hr, List.countP_cons, hused, hlowered,
      Entry.isMarker, Note.usesUpMarker, Note.isLowered]
    rfl
  | popBlind hb hcon hr hl hp =>
    obtain ⟨onE, onD, notes, hshown, rfl⟩ := exists_of_consult hcon
    obtain ⟨hgoesOn, hused, hlowered⟩ := markers_of_shown hshown
    refine ⟨_ :: notes, rfl, by simpa [Note.startsAfresh] using hgoesOn, ?_, fun hsound => ?_⟩
    · simp only [allMarkers, note, hring.contents_pop hr, List.countP_cons, hused, hlowered,
        Note.usesUpMarker, Note.isLowered, Move.phases, promised_zero]
      simp
      omega
    · cases hsound.symm.trans hp
  | settleFarewell e =>
    refine ⟨[], rfl, nofun, Nat.le_add_right _ _, fun _ hspot => ?_⟩
    cases hspot _ (Multiset.mem_singleton_self _)
  | settleFailed errand e =>
    refine ⟨[], rfl, nofun, Nat.add_le_add_left (Nat.zero_le _) _, fun _ hspot _ => ?_⟩
    have hmarker : errand.entry.isMarker = false := hspot _ (Multiset.mem_singleton_self _)
    rw [allMarkers, allMarkers, Spot.phases, promised_of_some rfl, List.countP_singleton, hmarker]
    rfl
  | vacate find => exact hstay rfl rfl (by cases find <;> rfl)
  | lower | raise | leaveOut => exact ⟨[_], .of_eq rfl (by simp [Note.startsAfresh]) rfl⟩
  | @install stage => cases stage <;> exact hstay rfl rfl rfl
  | clear | clearHalfway | clearRefused => exact absurd rfl hc
  | _ => exact hstay rfl rfl rfl

/-- A call comes to stand with a marker that it cannot put only where it did before, where the
buffer lock is poisoned, or where the hook refuses the marker. -/
theorem Passage.strands_cases (h : Passage q spot r q' move) {p : Phase α} (hp : p ∈ move.phases)
    (hs : p.strandsMarker = true) :
    (∃ p' ∈ spot.phases, p'.strandsMarker = true) ∨ q.bufferPoisoned = true ∨
      ∃ cause, q'.history = .consulted .enqueue .eof (.reject cause) :: q.history := by
  have hphase {p' : Phase α} (hm : move.phases = {p'}) : p = p' := by
    rw [hm] at hp
    exact Multiset.mem_singleton.1 hp
  cases h with
  | storeRefused errand hb => exact .inr (.inl hb)
  | storeRejected hb hcon =>
    obtain rfl := hphase rfl
    have heq := Entry.eq_eof hs
    obtain ⟨onE, onD, notes, ⟨-, hv⟩ | rfl, rfl⟩ := exists_of_consult hcon
    · cases hv
    · exact .inr (.inr ⟨_, by rw [← heq]; rfl⟩)
  | refundFree => obtain rfl := hphase rfl; exact .inl ⟨_, Multiset.mem_singleton_self _, hs⟩
  | vacate find => obtain rfl := hphase rfl; cases find <;> cases hs
  | takeFree | waitFree | push | publish | takeFilled | waitFilled | fetchRejected | popItem
    | popAbsorbed | popConcluded | refundFilled | passOn | lower =>
      obtain rfl := hphase rfl
      cases hs
  | _ => cases hp

/-! ## Accounts since a clearing -/

section Accounts

variable {others : Multiset (Phase α)}

theorem allMarkers_add (q : Queue α) (phases others : Multiset (Phase α)) :
    q.allMarkers (phases + others) = q.allMarkers phases + promised others := by
  rw [allMarkers, promised_add, allMarkers, Nat.add_assoc]

/-- Nothing of a passage is forgotten that is not a clearing. -/
theorem Tally.takeWhile_history {notes : List (Note α)} (h : Tally q q' spot move notes)
    {stop : Note α → Bool} (hstop : ∀ n, stop n = true → n.startsAfresh = true) :
    q'.history.takeWhile (fun n => !stop n) = notes ++ q.history.takeWhile fun n => !stop n := by
  rw [h.history_eq]
  refine List.takeWhile_append_of_pos fun n hn => ?_
  have hgoesOn := h.goesOn n hn
  cases hn' : stop n with
  | false => rfl
  | true => rw [hstop n hn'] at hgoesOn; cases hgoesOn

/-- **There are no more markers than producers that left** since the ring, or the whole queue, was
cleared. -/
theorem Passage.allMarkers_le (h : Passage q spot r q' move) (hring : q.ring.Sound)
    (halone : spot = .opening .clear → others = 0) {stop : Note α → Bool}
    (hstop : ∀ n, stop n = true → n.startsAfresh = true)
    (hq : q.allMarkers (spot.phases + others) ≤
      (q.history.takeWhile fun n => !stop n).countP Note.isLowered) :
    q'.allMarkers (move.phases + others) ≤
      (q'.history.takeWhile fun n => !stop n).countP Note.isLowered := by
  by_cases hc : spot = .opening .clear
  · obtain rfl := halone hc
    subst hc
    obtain ⟨⟨o, rfl⟩, ⟨-, rfl⟩ | ⟨hr, -⟩ | ⟨hr, -⟩⟩ := h.clear_cases
    · exact hq
    · simp [allMarkers, Move.phases, hr]
    · simp [allMarkers, Move.phases, hr]
  · obtain ⟨notes, ht⟩ := h.tally hring hc
    have hle := ht.markers_le
    rw [ht.takeWhile_history hstop, List.countP_append]
    rw [allMarkers_add] at hq ⊢
    omega

/-- Only producers that leave make markers. -/
theorem Passage.allMarkers_grow (h : Passage q spot r q' move) (hring : q.ring.Sound)
    (halone : spot = .opening .clear → others = 0) :
    q'.allMarkers (move.phases + others) + q.history.countP Note.isLowered ≤
      q.allMarkers (spot.phases + others) + q'.history.countP Note.isLowered := by
  by_cases hc : spot = .opening .clear
  · obtain rfl := halone hc
    obtain ⟨notes, hnotes⟩ := h.kept.history_eq
    rw [hnotes, List.countP_append]
    subst hc
    obtain ⟨⟨o, rfl⟩, ⟨-, rfl⟩ | ⟨hr, -⟩ | ⟨hr, -⟩⟩ := h.clear_cases
    · exact Nat.add_le_add_left (Nat.le_add_left _ _) _
    · simp [allMarkers, Move.phases, hr]
      omega
    · simp [allMarkers, Move.phases, hr]
      omega
  · obtain ⟨notes, ht⟩ := h.tally hring hc
    have hle := ht.markers_le
    rw [ht.history_eq, List.countP_append]
    rw [allMarkers_add, allMarkers_add]
    omega

/-- No lock is poisoned, no marker was lost since the whole queue was cleared, and none is going to
be lost by a call that has failed. -/
structure Unspoilt (q : Queue α) (phases : Multiset (Phase α)) : Prop where
  bufferSound : q.bufferPoisoned = false
  producersSound : q.producersPoisoned = false
  unstranded : ∀ p ∈ phases, p.strandsMarker = false
  markers_eq : q.allMarkers phases + (sinceRenewal q.history).countP Note.usesUpMarker =
    (sinceRenewal q.history).countP Note.isLowered

/-- A passage does not forget what happened since the whole queue was cleared, or it is a clearing,
after which there is nothing to account for. -/
theorem Passage.renewal_cases (h : Passage q spot r q' move) (hring : q.ring.Sound) :
    spot = .opening .clear ∧ move = .finish .done ∧ q'.Unspoilt 0 ∨
      ¬(spot = .opening .clear ∧ move = .finish .done) ∧
        ∃ notes, sinceRenewal q'.history = notes ++ sinceRenewal q.history := by
  by_cases hc : spot = .opening .clear
  · subst hc
    cases h with
    | clear hb hp =>
      exact .inl ⟨rfl, rfl, hb, hp, fun p hp => absurd hp (Multiset.notMem_zero p), rfl⟩
    | clearRefused => exact .inr ⟨(fun hm => nomatch hm.2), [], rfl⟩
    | clearHalfway => exact .inr ⟨(fun hm => nomatch hm.2), [.emptied], rfl⟩
    | takeFree hs | waitFree hs | takeFilled hs | waitFilled hs => cases hs
  · obtain ⟨notes, ht⟩ := h.tally hring hc
    exact .inr ⟨fun hm => hc hm.1, notes,
      ht.takeWhile_history fun n hn => by cases n <;> first | rfl | cases hn⟩

/-- Where nothing is spoilt, a clearing does what it is for. -/
theorem Unspoilt.clears (h : q.Unspoilt (spot.phases + others)) (hp : Passage q spot r q' move)
    (hc : spot = .opening .clear) : move = .finish .done := by
  subst hc
  cases hp with
  | clear => rfl
  | clearRefused hb => cases h.bufferSound.symm.trans hb
  | clearHalfway hb hp => cases h.producersSound.symm.trans hp
  | takeFree hs | waitFree hs | takeFilled hs | waitFilled hs => cases hs

/-- **No marker is lost** in a passage in which nothing panics and no hook refuses a marker. -/
theorem Unspoilt.passage (h : q.Unspoilt (spot.phases + others)) (hring : q.ring.Sound)
    (hp : Passage q spot r q' move) (hc : ¬(spot = .opening .clear ∧ move = .finish .done))
    (hmove : ∀ text, move ≠ .finish (.panicked text))
    (heof : ∀ cause, .consulted .enqueue .eof (.reject cause) ∉ sinceRenewal q'.history) :
    q'.Unspoilt (move.phases + others) := by
  have hspot : spot ≠ .opening .clear := fun hs => hc ⟨hs, h.clears hp hs⟩
  have hstranded : ∀ p ∈ spot.phases, p.strandsMarker = false := fun p hp =>
    h.unstranded p (Multiset.mem_add.2 (.inl hp))
  obtain ⟨hb, hpr⟩ := hp.locks_eq hmove
  obtain ⟨notes, ht⟩ := hp.tally hring hspot
  have hwindow : sinceRenewal q'.history = notes ++ sinceRenewal q.history :=
    ht.takeWhile_history fun n hn => by cases n <;> first | rfl | cases hn
  refine ⟨hb.trans h.bufferSound, hpr.trans h.producersSound, fun p hphase => ?_, ?_⟩
  · rcases Multiset.mem_add.1 hphase with hphase | hphase
    · by_contra hs
      rcases hp.strands_cases hphase (by simpa using hs) with ⟨p', hp', hs'⟩ | hb | ⟨cause, hh⟩
      · rw [hstranded p' hp'] at hs'; cases hs'
      · cases h.bufferSound.symm.trans hb
      · refine heof cause ?_
        rw [hh, sinceRenewal, List.takeWhile_cons_of_pos rfl]
        exact List.mem_cons_self
    · exact h.unstranded p (Multiset.mem_add.2 (.inr hphase))
  · have heq := ht.markers_eq h.producersSound hstranded hmove
    have hbefore := h.markers_eq
    rw [hwindow, List.countP_append, List.countP_append]
    rw [allMarkers_add] at hbefore ⊢
    omega

end Accounts

end Queue

end BoundedQueue
