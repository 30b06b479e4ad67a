import BoundedQueue.Proofs.Queue.Smooth
import BoundedQueue.Proofs.Schedule.Waiting
import BoundedQueue.Proofs.Session.Drain
import BoundedQueue.Proofs.Session.Totals

/-!
# The end of input is final

A consumer is told that there is no item because, some time before, it came upon the end of input:
it popped a marker that was the last entry in the ring, when no producer was left (`Concludes`).
Between the two it may wait, put the marker back or leave it out, while other tasks go on.

* `exists_concluding` finds this instant in the run.  It is found backwards, from the answer, since
  a call that has come upon the end of input (`Drains`) did so in the step before, or had done so
  already.
* By then everything that was put since the ring was emptied has been taken, because nobody hands in
  items while there is no producer.  `Settled` keeps the accounts of all tasks since the ring was
  emptied, and `Settled.itemsOf_handedIn` says that what a task handed in is what it was answered to
  have put.
* From then on the queue is `Shut`, until a producer is registered: nothing but markers is in the
  ring, and no item goes in or comes out (`shut_after`).
* A step has the same effect on the queue whether or not the logger panics at its end, which is why
  these proofs speak of the `Imprint` that a section leaves.

`drained_final` puts it together, whatever hooks and loggers do.
-/

set_option autoImplicit false

namespace BoundedQueue

variable {α : Type}

/-! ## Accounts since the ring was emptied -/

namespace Mark

/-- Whether a mark is that the ring was emptied. -/
def isEmptied (m : Mark α) : Bool := m.note?.elim false Note.isEmptied

/-- The entry that was popped. -/
def popped? (m : Mark α) : Option (Entry α) := m.note?.bind Note.popped?

end Mark

section RecentMarks

variable {t u : Int} {ms : List (Mark α)} {c c' : List (Int × Mark α)}

theorem recentMarks_append (h : ∀ m ∈ ms, m.isEmptied = false) :
    recentMarks (ms.map (Prod.mk t) ++ c) = ms.map (Prod.mk t) ++ recentMarks c := by
  refine List.takeWhile_append_of_pos fun e he => ?_
  obtain ⟨m, hm, rfl⟩ := List.mem_map.1 he
  exact congrArg not (h m hm)

theorem recentMarks_emptied : recentMarks ((t, .noted .emptied) :: c) = [] :=
  List.takeWhile_cons_of_neg fun h => by cases h

theorem marksOf_join : marksOf t (c ++ c') = marksOf t c ++ marksOf t c' :=
  List.filterMap_append

theorem marksOf_map_self : marksOf t (ms.map (Prod.mk t)) = ms := by
  have h := marksOf_append t t ms []
  rw [if_pos rfl, List.append_nil] at h
  exact h.trans (List.append_nil _)

theorem marksOf_map_of_ne (h : u ≠ t) : marksOf t (ms.map (Prod.mk u)) = [] := by
  have h' := marksOf_append t u ms []
  rw [if_neg h, List.append_nil] at h'
  exact h'

end RecentMarks

namespace World

variable {w : Traffic α} {t u : Int} {e : Engagement α} {c : List (Int × Mark α)}

/-- The accounts of all tasks are in order, of what they did since the ring was emptied. -/
def Settled (w : Traffic α) (c : List (Int × Mark α)) : Prop :=
  ∀ u, Balanced (marksOf u (recentMarks c)) ∧ (w.tasks.get u).Pending (marksOf u (recentMarks c))

/-- What a section of task `t` leaves behind, whether or not the logger panics at its remark. -/
structure Imprint (w : Traffic α) (t : Int) (e : Engagement α) (q' : Queue α)
    (move : Move (Phase α) Side (Outcome α)) (notes : List (Note α)) : Prop where
  engaged : w.engagement? t = some e
  passage : ∃ r, w.shared.queue.Passage e.spot r q' move
  history_eq : q'.history = notes ++ w.shared.queue.history
  ring_eq : (w.advance Session.machine t).1.shared.queue.ring = q'.ring
  producers_eq : (w.advance Session.machine t).1.shared.queue.producers = q'.producers
  marks_eq : ∃ before, w.marks t = before ++ notes.map .noted ∧ before.filterMap Mark.note? = []
  /-- The call is where the section left it, or is over, or asks for the next item. -/
  lands : let phases := ((w.advance Session.machine t).1.tasks.get t).phases
    (phases = move.phases ∧ w.marks t = notes.map .noted) ∨ phases = 0 ∨ phases = {.askFilled}

theorem Stride.imprint {q' q'' : Queue α} {move move' : Move (Phase α) Side (Outcome α)}
    {r : Option Remark} {notes : List (Note α)} (hp : w.shared.queue.Passage e.spot r q' move)
    (hs : Stride w (w.advance Session.machine t).1 t e q'' move')
    (hn : q'.history = notes ++ w.shared.queue.history) (hhistory : q''.history = q'.history)
    (hring : q''.ring = q'.ring) (hproducers : q''.producers = q'.producers)
    (hmove : move' = move ∨ ∃ text, move' = .finish (.panicked text)) :
    w.Imprint t e q' move notes := by
  obtain ⟨x, new, hx, ht, hnew⟩ := hs.landing
  obtain ⟨log, hlog⟩ := hs.queue_eq
  have hmarks := marks_of_stride hs (hhistory.trans hn) hnew
  refine ⟨hs.engaged, ⟨r, hp⟩, hn, by rw [hlog]; exact hring, by rw [hlog]; exact hproducers,
    ⟨_, hmarks, ?_⟩, ?_⟩
  · rw [List.filterMap_append, note_completedMarks, note_endMark]
    rfl
  · rw [ht, Roster.get_set_self]
    cases hx with
    | stay hphases =>
      rcases hmove with rfl | ⟨text, rfl⟩
      · refine .inl ⟨hphases.symm, ?_⟩
        rw [hmarks, (stay_of_phases e.op .clear hphases).1]
        rfl
      · simp [Move.phases] at hphases
    | finish => exact .inr (.inl rfl)
    | again => exact .inr (.inr rfl)

/-- A section of a task leaves its imprint. -/
theorem Regular.imprint (hw : w.Regular) (he : w.engagement? t = some e) :
    ∃ q' move notes, w.Imprint t e q' move notes := by
  obtain ⟨r, q', move, hp, hs⟩ := hw.stride he
  obtain ⟨notes, hn⟩ := hp.kept.history_eq
  rcases hs with hs | ⟨-, b, p, hs⟩
  · exact ⟨q', move, notes, hs.imprint hp hn rfl rfl rfl (.inl rfl)⟩
  · exact ⟨q', move, notes, hs.imprint hp hn rfl rfl rfl (.inr ⟨_, rfl⟩)⟩

/-- The marks of a step tell what is new in the history. -/
theorem Imprint.note_marks {q' : Queue α} {move : Move (Phase α) Side (Outcome α)}
    {notes : List (Note α)} (h : w.Imprint t e q' move notes) :
    (w.marks t).filterMap Mark.note? = notes := by
  obtain ⟨before, hmarks, hbefore⟩ := h.marks_eq
  rw [hmarks, List.filterMap_append, hbefore, note_noted]
  rfl

theorem not_isEmptied {ms : List (Mark α)} (h : .emptied ∉ ms.filterMap Mark.note?) :
    ∀ m ∈ ms, m.isEmptied = false := by
  intro m hm
  by_contra hempty
  cases m with
  | noted n =>
    cases n with
    | emptied => exact h (List.mem_filterMap.2 ⟨_, hm, rfl⟩)
    | _ => exact hempty rfl
  | ended | completed => exact hempty rfl

/-- When a task clears the queue, nobody is inside an operation. -/
theorem outside_of_clearing (he : w.engagement? t = some e) (hc : e.spot = .opening .clear)
    (u : Int) : (w.tasks.get u).isInside = false := by
  cases engaged he with
  | inside => cases hc
  | opens ht ho =>
    cases hc
    by_cases hu : u = t
    · rw [hu, ht]; rfl
    · exact Roster.outside_of_othersOutside (Session.opens_of_opening ho).1.alone_of_clear hu

/-- Everybody starts afresh when the ring is emptied. -/
theorem settled_clear (hw : w.Regular) (he : w.engagement? t = some e)
    (hspot : e.spot = .opening .clear) {q' : Queue α} {move : Move (Phase α) Side (Outcome α)}
    {call : Call α} {notes : List (Note α)} (hcall : e.op.call? = some call)
    (hs : Stride w (w.advance Session.machine t).1 t e q' move)
    (hh : Queue.Handling w.shared.queue q' call e.spot move notes)
    (hnotes : notes = [.emptied] ∨ notes = [.renewed, .emptied]) :
    Settled (w.advance Session.machine t).1 ((w.marks t).map (Prod.mk t) ++ c) := by
  obtain ⟨first, rfl, hfirst, hin, hout⟩ : ∃ first, notes = first ++ [.emptied] ∧
      .emptied ∉ first ∧ first.filterMap Note.pushedItem? = [] ∧
        first.filterMap Note.poppedItem? = [] := by
    rcases hnotes with rfl | rfl
    · exact ⟨[], rfl, nofun, rfl, rfl⟩
    · exact ⟨[.renewed], rfl, by simp, rfl, rfl⟩
  obtain ⟨hhistory, hpushed, hpopped⟩ := hh
  obtain ⟨x, new, hx, ht, hnew⟩ := hs.landing
  let ms : List (Mark α) := completedMarks new ++ endMark e.op move ++ first.map .noted
  have hmarks : w.marks t = ms ++ [.noted .emptied] := by
    rw [marks_of_stride hs hhistory hnew, List.map_append, ← List.append_assoc]
    rfl
  have hnone : ∀ m ∈ ms, m.isEmptied = false := by
    refine not_isEmptied ?_
    rw [List.filterMap_append, List.filterMap_append, note_completedMarks, note_endMark, note_noted]
    exact hfirst
  have hrecent : recentMarks ((w.marks t).map (Prod.mk t) ++ c) = ms.map (Prod.mk t) := by
    rw [hmarks, List.map_append, List.append_assoc, recentMarks_append hnone]
    exact (congrArg _ recentMarks_emptied).trans (List.append_nil _)
  have hfree (u : Int) : (w.tasks.get u).Pending [] :=
    (Task.pending_iff_of_outside (outside_of_clearing he hspot u)).2 .nil
  rw [List.filterMap_append, show [Note.emptied].filterMap Note.pushedItem? = [] from rfl,
    List.append_nil] at hpushed
  rw [List.filterMap_append, show [Note.emptied].filterMap Note.poppedItem? = [] from rfl,
    List.append_nil] at hpopped
  have hbooks := books_landing hw hs hcall hx hpushed hpopped Balanced.nil (hfree t)
  intro u
  rw [hrecent]
  by_cases hu : u = t
  · subst hu
    rw [marksOf_map_self, ht, Roster.get_set_self]
    rwa [List.append_nil] at hbooks
  · rw [marksOf_map_of_ne (Ne.symm hu), advance_get_of_ne _ _ _ hu]
    exact ⟨.nil, hfree u⟩

theorem settled_advance (hw : w.Regular) (h : w.Settled c) (t : Int) :
    Settled (w.advance Session.machine t).1 ((w.marks t).map (Prod.mk t) ++ c) := by
  -- unless the ring is emptied, the marks of the step are recent, and so is what was recent before
  have hkeep (hnone : ∀ m ∈ w.marks t, m.isEmptied = false) :
      Settled (w.advance Session.machine t).1 ((w.marks t).map (Prod.mk t) ++ c) := by
    intro u
    rw [recentMarks_append hnone, marksOf_append]
    split
    · next hu =>
      subst hu
      exact books_advance hw (h t).1 (h t).2
    · next hu =>
      rw [advance_get_of_ne _ _ _ (Ne.symm hu)]
      exact h u
  by_cases hemptied : .emptied ∈ (w.marks t).filterMap Mark.note?
  · rcases he : w.engagement? t with - | e
    · obtain ⟨-, new, -, hnew⟩ := quiet_advance he
      rw [marks_of_quiet he hnew, note_completedMarks] at hemptied
      cases hemptied
    · obtain ⟨call, q₁, move₁, notes₁, hcall, hs, hh⟩ := stride_handling hw he
      obtain ⟨q', move, notes, himprint⟩ := hw.imprint he
      rw [himprint.note_marks] at hemptied
      obtain ⟨r, hp⟩ := himprint.passage
      obtain ⟨hspot, hnotes⟩ := hp.emptied_cases himprint.history_eq hemptied
      have hsame : notes₁ = notes := by
        obtain ⟨log, hlog⟩ := hs.queue_eq
        refine List.append_cancel_right (hh.history_eq.symm.trans ?_)
        rw [← himprint.note_marks, ← noted_marks hw t, hlog]
      exact settled_clear hw he hspot hcall hs hh (hsame ▸ hnotes)
  · exact hkeep (not_isEmptied hemptied)

/-- The items that a task has put since the ring was emptied, as its operations that are over
answered, in the order in which it put them. -/
def putBy (u : Int) (c : List (Int × Mark α)) : List α :=
  ((marksOf u (recentMarks c)).filterMap Mark.completed?).reverse.flatMap fun x =>
    x.2.deposits x.1.offered

/-- What a task handed in is what it was answered to have put, unless it is handing in an item. -/
theorem Settled.itemsOf_handedIn (h : w.Settled c)
    (hnone : ∀ p ∈ (w.tasks.get u).phases, p.delivers = false) :
    itemsOf u (handedIn c) = putBy u c := by
  have hpending : pushedItems (openPart Mark.endsOperation (marksOf u (recentMarks c))) = [] := by
    have hp := (h u).2
    rcases hx : w.tasks.get u with ⟨standing, todo⟩
    rw [hx] at hp hnone
    cases standing with
    | idle | paused => exact hp.pushedByOperation
    | inside op job =>
      refine hp.pushedByOperation.trans ?_
      have hjob := hnone job.phase (Multiset.mem_singleton_self _)
      generalize job.phase = p at hjob
      cases p with
      | publish errand =>
        cases errand with
        | deliver => cases hjob
        | farewell | relay => rfl
      | settle errand e? =>
        cases e? with
        | some e => rfl
        | none =>
          cases errand with
          | deliver => cases hjob
          | farewell | relay => rfl
      | _ => rfl
  rw [BoundedQueue.itemsOf_handedIn, (h u).1.pushed_eq, hpending, List.nil_append,
    List.reverse_flatMap]
  refine List.flatMap_congr fun x _ => ?_
  rcases x with ⟨op, a⟩
  cases a with
  | done => exact op.reverse_offered
  | _ => rfl

section Fresh

variable {capacity : Nat} (onEnqueue onDequeue : Option (Hook α)) (log : Logbook)

theorem settled_after (hpos : 0 < capacity) (hmax : capacity ≤ Semaphore.maxPermits)
    (hs : List (Happening (Operation α))) :
    let w := Traffic.fresh capacity onEnqueue onDequeue log
    (w.after Session.machine hs).Settled (w.chronicle hs) := by
  intro w
  induction hs with
  | nil => exact fun u => ⟨.nil, .nil⟩
  | cons x hs ih =>
    have hw : (w.after Session.machine hs).Regular :=
      regular_after onEnqueue onDequeue log hpos hmax hs
    cases x with
    | advance t => exact settled_advance hw ih t
    | handOut a => exact fun u => ⟨(ih u).1, (quiet_handOut _ a).pending (ih u).2⟩

end Fresh

/-! ## Coming upon the end of input -/

/-- In the next step of task `t`, its call comes upon the end of input: it pops a marker that is the
last entry in the ring, and no producer is left. -/
structure Concludes (w : Traffic α) (t : Int) : Prop where
  popped : .noted (.popped .eof) ∈ w.marks t
  concluded : .noted .concluded ∈ w.marks t
  producers_eq : w.shared.queue.producers = 0
  contents_eq : w.shared.queue.ring.contents = [.eof]
  producers_after : (w.advance Session.machine t).1.shared.queue.producers = 0
  contents_after : (w.advance Session.machine t).1.shared.queue.ring.contents = []

/-- Task `t` is in a call that has come upon the end of input. -/
def Drains (w : Traffic α) (t : Int) : Prop := ∃ p ∈ (w.tasks.get t).phases, p.drains = true

theorem Drains.spot {p : Phase α} (he : w.engagement? t = some e) (hp : p ∈ e.spot.phases)
    (hd : p.drains = true) : w.Drains t := by
  cases engaged he with
  | inside ht => exact ⟨p, by rw [ht]; exact hp, hd⟩
  | opens => exact absurd hp (Multiset.notMem_zero p)

/-- A call that is told the end of input came upon it before. -/
theorem drains_of_ending {op : Operation α} (hw : w.Regular)
    (h : w.ending? t = some (.ended op .drained)) : w.Drains t := by
  obtain ⟨e, he, hend⟩ := Option.bind_eq_some_iff.1 h
  obtain ⟨r, q', move, hp, hsec⟩ := exists_passage hw.sorted hw.within he
  rcases q'.remarked_cases move r with ⟨log, hr⟩ | ⟨log, b, p, -, hr⟩
  · rw [hsec, hr] at hend
    cases move with
    | finish o =>
      cases hend
      obtain ⟨p, hp, hd⟩ := hp.drained_cases
      exact .spot he hp hd
    | go | wait | signal => cases hend
  · rw [hsec, hr] at hend
    cases hend

/-- A call that has come upon the end of input did so before, and does not pop anything more, or it
does so now. -/
theorem Regular.drains_advance (hw : w.Regular) (h : (w.advance Session.machine t).1.Drains t) :
    (w.Drains t ∧ ∀ m ∈ w.marks t, m.endsCall = false ∧ m.popped? = none) ∨ w.Concludes t := by
  obtain ⟨p, hp, hd⟩ := h
  rcases he : w.engagement? t with - | e
  · rw [phases_of_outside ((quiet_advance he).1.outside (outside_of_engagement he))] at hp
    exact absurd hp (Multiset.notMem_zero p)
  · obtain ⟨q', move, notes, himprint⟩ := hw.imprint he
    obtain ⟨r, hpassage⟩ := himprint.passage
    rcases himprint.lands with ⟨hphases, hmarks⟩ | hnone | hask
    · rw [hphases] at hp
      rcases hpassage.drains_cases hw.within.ringSound himprint.history_eq hp hd with
        ⟨⟨p', hp', hd'⟩, hpops⟩ | ⟨hconcluded, hpopped, h0, hcontents, h0', hcontents'⟩
      · refine .inl ⟨.spot he hp' hd', fun m hm => ?_⟩
        obtain ⟨n, hn, rfl⟩ := List.mem_map.1 (hmarks ▸ hm)
        exact ⟨rfl, List.filterMap_eq_nil_iff.1 hpops n hn⟩
      · refine .inr ⟨?_, ?_, h0, hcontents, himprint.producers_eq.trans h0', ?_⟩
        · exact hmarks ▸ List.mem_map_of_mem hpopped
        · exact hmarks ▸ List.mem_map_of_mem hconcluded
        · rw [himprint.ring_eq]; exact hcontents'
    · rw [hnone] at hp
      exact absurd hp (Multiset.notMem_zero p)
    · rw [hask] at hp
      rw [Multiset.mem_singleton.1 hp] at hd
      cases hd

theorem drains_happen (hw : w.Regular) {x : Happening (Operation α)}
    (h : (w.happen Session.machine x).Drains t) :
    (w.Drains t ∧ ∀ m ∈ marksOf t (w.chronicle [x]), m.endsCall = false ∧ m.popped? = none) ∨
      x = .advance t ∧ w.Concludes t := by
  cases x with
  | handOut a =>
    refine .inl ⟨?_, fun m hm => absurd hm List.not_mem_nil⟩
    obtain ⟨p, hp, hd⟩ := h
    rcases (quiet_handOut w a).get_cases t with heq | ⟨-, hout⟩
    · exact ⟨p, heq ▸ hp, hd⟩
    · rw [happen, phases_of_outside hout] at hp
      exact absurd hp (Multiset.notMem_zero p)
  | advance u =>
    rw [chronicle, marksOf_append]
    by_cases hu : u = t
    · subst hu
      rw [if_pos rfl]
      rcases hw.drains_advance h with ⟨hd, hm⟩ | hc
      · refine .inl ⟨hd, fun m hmem => hm m ?_⟩
        exact (List.append_nil (w.marks u)) ▸ hmem
      · exact .inr ⟨rfl, hc⟩
    · rw [if_neg hu]
      refine .inl ⟨?_, fun m hm => absurd hm List.not_mem_nil⟩
      obtain ⟨p, hp, hd⟩ := h
      rw [happen, advance_get_of_ne _ _ _ (Ne.symm hu)] at hp
      exact ⟨p, hp, hd⟩

section Fresh

variable {capacity : Nat} (onEnqueue onDequeue : Option (Hook α)) (log : Logbook)

/-- Whoever is in a call that has come upon the end of input did so at some instant, and has not
popped anything since. -/
theorem exists_concluding (hpos : 0 < capacity) (hmax : capacity ≤ Semaphore.maxPermits)
    {hs : List (Happening (Operation α))}
    (h : ((Traffic.fresh capacity onEnqueue onDequeue log).after Session.machine hs).Drains t) :
    let w₀ := Traffic.fresh capacity onEnqueue onDequeue log
    ∃ later earlier, hs = later ++ .advance t :: earlier ∧
      (w₀.after Session.machine earlier).Concludes t ∧
      ∀ m ∈ marksOf t ((w₀.after Session.machine (.advance t :: earlier)).chronicle later),
        m.endsCall = false ∧ m.popped? = none := by
  intro w₀
  induction hs with
  | nil =>
    obtain ⟨p, hp, -⟩ := h
    exact absurd hp (Multiset.notMem_zero p)
  | cons x hs ih =>
    have hw : (w₀.after Session.machine hs).Regular :=
      regular_after onEnqueue onDequeue log hpos hmax hs
    rcases drains_happen hw h with ⟨hbefore, hnone⟩ | ⟨rfl, hconcludes⟩
    · obtain ⟨later, earlier, rfl, hconcludes, hrest⟩ := ih hbefore
      refine ⟨x :: later, earlier, rfl, hconcludes, fun m hm => ?_⟩
      rw [show x :: later = [x] ++ later from rfl, chronicle_append, ← after_append,
        marksOf_join] at hm
      rcases List.mem_append.1 hm with hm | hm
      · exact hnone m hm
      · exact hrest m hm
    · exact ⟨[], hs, rfl, hconcludes, fun m hm => absurd hm List.not_mem_nil⟩

end Fresh

/-! ## The queue is shut -/

/-- No producer is left, and nothing but markers is in the ring. -/
structure Shut (w : Traffic α) : Prop where
  producers_eq : w.shared.queue.producers = 0
  only_markers : ∀ entry ∈ w.shared.queue.ring.contents, entry = .eof

/-- A shut queue stays so until a producer is registered, and no item goes in or comes out. -/
theorem Regular.shut_advance (hw : w.Regular) (hescort : w.Escorted) (h : w.Shut)
    (hraised : .noted .raised ∉ w.marks t) :
    (w.advance Session.machine t).1.Shut ∧
      ∀ m ∈ w.marks t, m.pushedItem? = none ∧ m.poppedItem? = none := by
  rcases he : w.engagement? t with - | e
  · obtain ⟨⟨⟨log, hlog⟩, -⟩, new, -, hnew⟩ := quiet_advance he
    refine ⟨⟨by rw [hlog]; exact h.producers_eq, by rw [hlog]; exact h.only_markers⟩, ?_⟩
    rw [marks_of_quiet he hnew]
    intro m hm
    obtain ⟨x, -, rfl⟩ := List.mem_map.1 hm
    exact ⟨rfl, rfl⟩
  · obtain ⟨q', move, notes, himprint⟩ := hw.imprint he
    obtain ⟨r, hp⟩ := himprint.passage
    obtain ⟨before, hmarks, hbefore⟩ := himprint.marks_eq
    have hraise : .raised ∉ notes := fun hm =>
      hraised (hmarks ▸ List.mem_append_right _ (List.mem_map_of_mem hm))
    have h0 := hp.producers_eq_zero himprint.history_eq (fun _ => hraise) h.producers_eq
    obtain ⟨hring, hin, hout⟩ := hp.only_markers hw.within.ringSound himprint.history_eq
      (fun a hspot _ => hescort _ (by
        rw [phases_of_engagement hw.sorted he, hspot]
        exact Multiset.mem_add.2 (.inl (Multiset.mem_singleton_self _))) rfl h.producers_eq)
      h.only_markers
    refine ⟨⟨himprint.producers_eq.trans h0, himprint.ring_eq ▸ hring⟩, fun m hm => ?_⟩
    rcases hnote : m.note? with - | n
    · simp [Mark.pushedItem?, Mark.poppedItem?, hnote]
    · have hn : n ∈ notes := himprint.note_marks ▸ List.mem_filterMap.2 ⟨m, hm, hnote⟩
      rw [Mark.pushedItem?, Mark.poppedItem?, hnote]
      constructor
      · rcases hpushed : n.pushed? with - | entry
        · simp [Note.pushedItem?, hpushed]
        · have heof := hin entry (List.mem_filterMap.2 ⟨n, hn, hpushed⟩)
          simp [Note.pushedItem?, hpushed, heof, Entry.item?]
      · rcases hpopped : n.popped? with - | entry
        · simp [Note.poppedItem?, hpopped]
        · have heof := hout entry (List.mem_filterMap.2 ⟨n, hn, hpopped⟩)
          simp [Note.poppedItem?, hpopped, heof, Entry.item?]

theorem shut_after (hw : w.Regular) (h : w.Shut) {hs : List (Happening (Operation α))}
    (hescort : w.Always Session.machine Escorted hs)
    (hraised : ∀ u, (u, .noted .raised) ∉ w.chronicle hs) :
    (w.after Session.machine hs).Shut ∧
      ∀ e ∈ w.chronicle hs, e.2.pushedItem? = none ∧ e.2.poppedItem? = none := by
  induction hs with
  | nil => exact ⟨h, fun e he => absurd he List.not_mem_nil⟩
  | cons x hs ih =>
    have hregular : (w.after Session.machine hs).Regular :=
      after_induction hw (fun _ x hv => hv.happen x) hs
    cases x with
    | handOut a =>
      obtain ⟨hshut, hmarks⟩ := ih hescort.2 hraised
      exact ⟨⟨(handOut_shared a).symm ▸ hshut.producers_eq,
        (handOut_shared a).symm ▸ hshut.only_markers⟩, hmarks⟩
    | advance t =>
      have hold (u : Int) : (u, .noted .raised) ∉ w.chronicle hs := fun hm =>
        hraised u (List.mem_append_right _ hm)
      obtain ⟨hshut, hmarks⟩ := ih hescort.2 hold
      obtain ⟨hshut', hmarks'⟩ := hregular.shut_advance hescort.2.last hshut fun hm =>
        hraised t (List.mem_append_left _ (List.mem_map_of_mem hm))
      refine ⟨hshut', fun e he => ?_⟩
      rcases List.mem_append.1 he with he | he
      · obtain ⟨m, hm, rfl⟩ := List.mem_map.1 he
        exact hmarks' m hm
      · exact hmarks e he

section Fresh

variable {capacity : Nat} (onEnqueue onDequeue : Option (Hook α)) (log : Logbook)

/-- **The end of input is final**, as long as items are handed in while there is a producer,
whatever hooks and loggers do.  Whoever is told that there is no item popped its last marker at some
instant before.  At that instant no producer was left, the ring became empty, nobody was handing in
an item, and all that was put since the last clearing had been taken.  From then on, until a
producer is registered, no item goes in or comes out. -/
theorem drained_final (hpos : 0 < capacity) (hmax : capacity ≤ Semaphore.maxPermits)
    {rest mid : List (Happening (Operation α))} {op : Operation α}
    (hescort : (Traffic.fresh capacity onEnqueue onDequeue log).Always Session.machine Escorted
      (rest ++ .advance t :: mid))
    (hend : ((Traffic.fresh capacity onEnqueue onDequeue log).after Session.machine mid).ending? t =
      some (.ended op .drained)) :
    let w₀ := Traffic.fresh capacity onEnqueue onDequeue log
    ∃ later earlier, mid = later ++ .advance t :: earlier ∧
      let w := w₀.after Session.machine (.advance t :: earlier)
      let c := w₀.chronicle (.advance t :: earlier)
      (w₀.after Session.machine earlier).Concludes t ∧
        (∀ m ∈ marksOf t (w.chronicle later), m.endsCall = false ∧ m.popped? = none) ∧
        (∀ p ∈ w.phases, p.delivers = false) ∧
        (∀ u, itemsOf u (handedIn c) = putBy u c) ∧
        (handedIn c).map Prod.snd = (handedOut c).map Prod.snd ∧
        ∀ newer next, rest ++ .advance t :: later = newer ++ next →
          (∀ u, (u, .noted .raised) ∉ w.chronicle next) →
            ∀ e ∈ w.chronicle next, e.2.pushedItem? = none ∧ e.2.poppedItem? = none := by
  intro w₀
  have hdrains := drains_of_ending (regular_after onEnqueue onDequeue log hpos hmax mid) hend
  obtain ⟨later, earlier, rfl, hconcludes, hcalm⟩ :=
    exists_concluding onEnqueue onDequeue log hpos hmax hdrains
  refine ⟨later, earlier, rfl, ?_⟩
  intro w c
  have hw : w.Regular := regular_after onEnqueue onDequeue log hpos hmax _
  rw [← List.cons_append, ← List.append_assoc, always_append] at hescort
  obtain ⟨hafter, hbefore⟩ := hescort
  have hnone : ∀ p ∈ w.phases, p.delivers = false := by
    intro p hp
    by_contra hd
    exact hbefore.last p hp (by simpa using hd) hconcludes.producers_after
  have hflow : (handedIn c).map Prod.snd =
      (handedOut c).map Prod.snd ++ w.shared.queue.ring.contents.filterMap Entry.item? :=
    handedIn_eq onEnqueue onDequeue log hpos hmax _
  have hcontents : w.shared.queue.ring.contents = [] := hconcludes.contents_after
  rw [hcontents, List.filterMap_nil, List.append_nil] at hflow
  refine ⟨hconcludes, hcalm, hnone, fun u => ?_, hflow, fun newer next hnext hraised => ?_⟩
  · refine (settled_after onEnqueue onDequeue log hpos hmax _).itemsOf_handedIn fun p hp =>
      hnone p ?_
    rw [phases, Roster.total_eq hw.sorted rfl u]
    exact Multiset.mem_add.2 (.inl hp)
  · rw [hnext, always_append] at hafter
    have hshut : w.Shut := ⟨hconcludes.producers_after, by simp [hcontents]⟩
    exact (shut_after hw hshut hafter.2 hraised).2

end Fresh

/-- A producer puts an item and leaves; a consumer takes the item and is told that there is none. -/
def parting : List (Happening (Operation Nat)) :=
  [.advance 2, .advance 2, .advance 2, .advance 2, .advance 2, .advance 2, .advance 2, .advance 2,
    .advance 2, .advance 2, .advance 1, .advance 1, .advance 1, .advance 1, .advance 1, .advance 1,
    .advance 1, .advance 1, .advance 1, .advance 1, .handOut ⟨2, [.perform .dequeue,
      .perform .dequeue]⟩,
    .handOut ⟨1, [.perform .register, .perform (.enqueue 7), .perform .deregister]⟩]

/-- Another consumer comes and goes in vain. -/
def returning : List (Happening (Operation Nat)) :=
  [.advance 3, .advance 3, .advance 3, .handOut ⟨3, [.perform .dequeue]⟩]

theorem drained_final_parting :
    ((Traffic.fresh 2 none none (.blank none)).Always Session.machine Escorted
        (returning ++ .advance 2 :: parting) ∧
      ((Traffic.fresh 2 none none (.blank none)).after Session.machine parting).ending? 2 =
        some (.ended .dequeue .drained)) ∧
    ∃ later earlier, parting = later ++ .advance 2 :: earlier ∧
      ((Traffic.fresh 2 none none (.blank none)).after Session.machine earlier).Concludes 2 ∧
      ((handedIn ((Traffic.fresh 2 none none (.blank none)).chronicle
        (.advance 2 :: earlier))).map Prod.snd =
          (handedOut ((Traffic.fresh 2 none none (.blank none)).chronicle
            (.advance 2 :: earlier))).map Prod.snd) := by
  have hescort : (Traffic.fresh 2 none none (.blank none)).Always Session.machine Escorted
      (returning ++ .advance 2 :: parting) := by decide +kernel
  have hend : ((Traffic.fresh 2 none none (.blank none)).after Session.machine parting).ending? 2 =
      some (.ended .dequeue .drained) := rfl
  obtain ⟨later, earlier, hmid, hconcludes, -, -, -, hflow, -⟩ :=
    drained_final none none (.blank none) (by decide) (by decide) hescort hend
  exact ⟨⟨hescort, hend⟩, later, earlier, hmid, hconcludes, hflow⟩

end World

end BoundedQueue
