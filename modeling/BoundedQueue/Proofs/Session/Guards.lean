import BoundedQueue.Proofs.Schedule.Order
import BoundedQueue.Proofs.Session.Handles
import BoundedQueue.Proofs.Session.Panics
import BoundedQueue.Proofs.Session.Progress

/-!
# Guards and the count of producers

Where registering is left to guards, the producers that the queue counts are the guards that there
are.  A guard is counted in the step in which it is made, and counted out in the first step of the
operation that ends it; what becomes of its marker later does not matter, nor who carries out the
operation, nor what hooks do in the meantime.

* `Guarded` is the invariant: there is one guard for every producer that is counted, the count can
  be told, and nobody is about to be told that there is none.
* `Counting` is all that a step can do to the guards and to the count (`Guarded.counting`): nothing,
  or it makes a guard and counts it, or ends one and counts it out.  The proofs about runs go
  through these cases, and through no others.
* `countings` sets down for a run which guard did what to the count.  Under every name the count is
  raised and lowered in turn (`Alternate`), and is up just as long as there is a guard
  (`alternate_after`).
* `LeftToGuards` and `LoggerHolds` are what is assumed: no task is told to register by itself, and
  the logger panics in no step.

`guards_deregister_once` puts it together, and adds that nobody finds the count at zero who is to
lower it.
-/

set_option autoImplicit false

namespace BoundedQueue

variable {α : Type}

/-! ## What is noted about the count -/

/-- Whether a note is about the count of producers. -/
def Note.counts : Note α → Bool
  | .raised | .lowered => true
  | _ => false

/-- The count is raised and lowered in turn, newest first; the flag says whether it is up. -/
inductive Alternate : Bool → List (Note α) → Prop where
  | never : Alternate false []
  | raised {notes : List (Note α)} (h : Alternate false notes) : Alternate true (.raised :: notes)
  | lowered {notes : List (Note α)} (h : Alternate true notes) : Alternate false (.lowered :: notes)

namespace Queue.Passage

variable {q q' : Queue α} {spot : Spot α} {r : Option Remark}
  {move : Move (Phase α) Side (Outcome α)} {notes : List (Note α)}

/-- Nothing is noted about the count but by a registration and a deregistration, and nothing else
changes it but a clearing. -/
theorem counts_eq (h : Passage q spot r q' move) (hn : q'.history = notes ++ q.history)
    (hr : spot ≠ .opening .register) (hd : spot ≠ .opening .deregister) :
    notes.filter Note.counts = [] ∧
      (q'.producers = q.producers ∨ spot = .opening .clear ∧ q'.producers = 0) := by
  have hnotes (notes' : List (Note α)) (hn' : q'.history = notes' ++ q.history) :
      notes' = notes := List.append_cancel_right (hn'.symm.trans hn)
  have hquiet (hn' : q'.history = [] ++ q.history) : notes.filter Note.counts = [] := by
    rw [← hnotes [] hn']
    rfl
  cases h with
  | raise | raiseRefused => exact absurd rfl hr
  | lower | lowerRefused | lowerUnmatched => exact absurd rfl hd
  | push hb hcon | storePanicked hb hcon | storeRejected hb hcon | popItem hb hcon
  | popAbsorbed hb hcon | popBlind hb hcon | popConcluded hb hcon =>
    obtain ⟨onE, onD, shown, hshown, rfl⟩ := exists_of_consult hcon
    refine ⟨?_, .inl rfl⟩
    first
      | rw [← hnotes shown rfl]; rcases hshown with ⟨rfl, -⟩ | rfl <;> rfl
      | rw [← hnotes (_ :: shown) rfl]; rcases hshown with ⟨rfl, -⟩ | rfl <;> rfl
      | rw [← hnotes (_ :: _ :: shown) rfl]; rcases hshown with ⟨rfl, -⟩ | rfl <;> rfl
  | fetchPanicked hb hr' hcon | fetchRejected hb hr' hcon =>
    obtain ⟨onE, onD, shown, hshown, rfl⟩ := exists_of_consult hcon
    rw [← hnotes shown rfl]
    rcases hshown with ⟨rfl, -⟩ | rfl <;> exact ⟨rfl, .inl rfl⟩
  | @install stage => cases stage <;> exact ⟨hquiet rfl, .inl rfl⟩
  | leaveOut | clearHalfway => exact ⟨by rw [← hnotes [_] rfl]; rfl, .inl rfl⟩
  | clear => exact ⟨by rw [← hnotes [.renewed, .emptied] rfl]; rfl, .inr ⟨rfl, rfl⟩⟩
  | _ => exact ⟨hquiet rfl, .inl rfl⟩

/-- A call is told that there is nobody to deregister by a deregistration only. -/
theorem noProducers_cases (h : Passage q spot r q' move)
    (he : move.error? = some .noProducers) :
    spot.error? = some .noProducers ∨ spot = .opening .deregister ∧ q.producers = 0 := by
  cases h with
  | refundFree | settleFarewell | settleFailed | refundFilled | fail => exact .inl he
  | lowerUnmatched hp h0 => exact .inr ⟨rfl, h0⟩
  | vacate find => cases find <;> cases he
  | _ => cases he

end Queue.Passage

/-! ## Guards -/

namespace Operation

/-- Whether an operation counts producers without a guard. -/
def bypassesGuards : Operation α → Bool
  | register | deregister => true
  | _ => false

/-- The name of the guard that an operation makes or ends. -/
def guard? : Operation α → Option String
  | producer name | finish name | drop name => some name
  | _ => none

end Operation

theorem Handles.Aside.guards_eq {handles handles' : Handles} (h : handles.Aside handles')
    (hd : handles.names.Nodup) : handles'.guards = handles.guards := by
  cases h with
  | same => rfl
  | made hn => rw [guards_set_of_none hn, if_neg nofun, List.append_nil]
  | dropped hn =>
    rw [guards_erase hd, List.erase_of_not_mem]
    rw [mem_guards hd, hn]
    rintro ⟨busy, ⟨⟩⟩

namespace World

variable {w w' : Traffic α} {t : Int} {e : Engagement α} {name : String}

/-- The names of the guards that there are. -/
abbrev guards (w : Traffic α) : List String := w.shared.handles.guards

/-- What is done to the count of producers in the next step of a task, newest first, and the name of
the guard that it is done for. -/
def counted (w : Traffic α) (t : Int) : List (String × Note α) :=
  match (w.engagement? t).bind (·.op.guard?) with
  | some name => (((w.marks t).filterMap Mark.note?).filter Note.counts).map (Prod.mk name)
  | none => []

/-- What is done to the count of producers in a run, newest first, and the name of the guard that it
is done for. -/
def countings (w : Traffic α) : List (Happening (Operation α)) → List (String × Note α)
  | [] => []
  | .advance t :: hs => (w.after Session.machine hs).counted t ++ w.countings hs
  | .handOut _ :: hs => w.countings hs

/-- What was noted about the count of producers, newest first. -/
abbrev tally (w : Traffic α) : List (Note α) := w.shared.queue.history.filter Note.counts

/-- What a step can do to the guards and to the count of producers. -/
inductive Counting (w w' : Traffic α) : List (String × Note α) → Prop where
  | same (hg : w'.guards = w.guards) (hc : w'.shared.queue.producers = w.shared.queue.producers)
      (ht : w'.tally = w.tally) : Counting w w' []
  | made {name : String} (hn : name ∉ w.guards) (hg : w'.guards = w.guards ++ [name])
      (hc : w'.shared.queue.producers = w.shared.queue.producers + 1)
      (ht : w'.tally = .raised :: w.tally) : Counting w w' [(name, .raised)]
  | ended {name : String} (hn : name ∈ w.guards) (hg : w'.guards = w.guards.erase name)
      (hc : w.shared.queue.producers = w'.shared.queue.producers + 1)
      (ht : w'.tally = .lowered :: w.tally) : Counting w w' [(name, .lowered)]

/-- A world in which every producer that is counted has its guard, the count can be told, and nobody
is about to be told that there is none. -/
structure Guarded (w : Traffic α) : Prop where
  regular : w.Regular
  held : w.Held
  producers_eq : w.shared.queue.producers = w.guards.length
  readable : w.shared.queue.producersPoisoned = false
  sane : ∀ p ∈ w.phases, p.error? ≠ some .noProducers

/-! ## A step -/

theorem opens_of_engagement (he : w.engagement? t = some e) {c : Call α}
    (hs : e.spot = .opening c) :
    w.shared.Opens (w.tasks.othersOutside t) e.op e.purpose c := by
  cases engaged he with
  | inside => cases hs
  | opens _ ho => cases hs; exact (Session.opens_of_opening ho).1

/-- Only `clear` clears the queue, and only where there is no handle. -/
theorem guards_of_clear (he : w.engagement? t = some e) (hs : e.spot = .opening .clear) :
    w.guards = [] := by
  have ho := opens_of_engagement he hs
  generalize e.op = op at ho
  generalize e.purpose = purpose at ho
  cases ho with
  | clear _ hnone => rw [guards, hnone]; rfl

/-- Who registers without bypassing guards makes one. -/
theorem made_of_register (he : w.engagement? t = some e) (hs : e.spot = .opening .register)
    (hop : e.op.bypassesGuards = false) :
    ∃ name, e.op = .producer name ∧ e.purpose = .producer name := by
  have ho := opens_of_engagement he hs
  generalize e.op = op at ho hop
  generalize e.purpose = purpose at ho
  cases ho with
  | register => cases hop
  | @producer name => exact ⟨name, rfl, rfl⟩

/-- Who deregisters without bypassing guards ends one, which is nobody's at the time. -/
theorem ended_of_deregister (he : w.engagement? t = some e) (hs : e.spot = .opening .deregister)
    (hop : e.op.bypassesGuards = false) :
    ∃ name, (e.op = .finish name ∨ e.op = .drop name) ∧
      w.shared.handles.get? name = some ⟨.guard, false⟩ := by
  have ho := opens_of_engagement he hs
  generalize e.op = op at ho hop
  generalize e.purpose = purpose at ho
  cases ho with
  | deregister => cases hop
  | @finish name hg => exact ⟨name, .inl rfl, hg⟩
  | @drop name hg => exact ⟨name, .inr rfl, hg⟩

/-- A section that neither registers nor deregisters leaves the guards as they are. -/
theorem Held.guards_eq (h : w.Held) (hw : w.Jobs) (he : w.engagement? t = some e)
    (hr : e.spot ≠ .opening .register) (hd : e.spot ≠ .opening .deregister)
    (move : Move (Phase α) Side (Outcome α)) :
    (e.release (e.claim w.shared.handles) move).guards = w.guards := by
  have hclaimed := h.claim he
  obtain ⟨⟨c, hc, hreach⟩, hserves⟩ := hw.reaches he
  have hclaim : (e.claim w.shared.handles).guards = w.guards := by
    rw [Engagement.claim]
    split
    · next c' hs =>
      have ho := opens_of_engagement he hs
      generalize e.op = op at ho
      generalize e.purpose = purpose at ho
      cases ho with
      | send _ hg | next hg => exact Handles.guards_set_of_some hg Iff.rfl
      | finish | drop => exact absurd hs hd
      | _ => rfl
    · rfl
  rw [← hclaim]
  cases move with
  | go | wait | signal => rfl
  | finish o =>
    have hbusy := hclaimed.busy t
    rw [Function.update_self] at hbusy
    rw [Engagement.release]
    cases hp : e.purpose with
    | plain | attempt | drop | gather => cases o <;> rfl
    | send name =>
      exact Handles.guards_set_of_some (hbusy name .guard (by rw [hp]; rfl)) Iff.rfl
    | next name =>
      have hget := hbusy name (.iterator false) (by rw [hp]; rfl)
      cases o <;> exact Handles.guards_set_of_some hget (by simp)
    | producer name =>
      -- such a call is a registration
      rw [hserves.producer_iff.2 hp] at hc
      cases hc
      cases hs : e.spot with
      | opening => rw [hs] at hreach hr; exact absurd (congrArg _ hreach) hr
      | phase => rw [hs] at hreach; exact hreach.elim

/-- Where the logger does not panic, a section ends as its passage says. -/
theorem Regular.section_of_calm (hw : w.Regular) (he : w.engagement? t = some e)
    (hcalm : ¬w.LoggerPanics t Logbook.panicText) :
    ∃ r q' move, w.shared.queue.Passage e.spot r q' move ∧
      (w.shared.queue.sectionAt e.spot).2 = move ∧
      (w.advance Session.machine t).1.shared.queue.producers = q'.producers ∧
      q'.history = (w.marks t).filterMap Mark.note? ++ w.shared.queue.history := by
  obtain ⟨r, q', move, hp, hr⟩ := Queue.exists_remarks (hw.workable he)
  refine ⟨r, q', move, hp, ?_, (same_advance he hr).2.1, hw.history_eq he hr⟩
  generalize hsec : w.shared.queue.sectionAt e.spot = s at hr
  cases hr with
  | none | written => rfl
  | sprung hs => exact absurd (loggerPanicsAt_of_springs he hp (hsec ▸ .sprung hs) rfl hs).1 hcalm

/-- What a step adds to the tally is what its marks say. -/
theorem Regular.tally_eq (hw : w.Regular) (t : Int) :
    (w.advance Session.machine t).1.tally =
      ((w.marks t).filterMap Mark.note?).filter Note.counts ++ w.tally := by
  rw [tally, noted_marks hw, List.filter_append]

theorem counted_of_guard (he : w.engagement? t = some e) (hg : e.op.guard? = some name) :
    w.counted t = (((w.marks t).filterMap Mark.note?).filter Note.counts).map (Prod.mk name) := by
  rw [counted, he, Option.bind_some, hg]

theorem counted_of_nothing (h : ((w.marks t).filterMap Mark.note?).filter Note.counts = []) :
    w.counted t = [] := by
  rw [counted]
  split
  · rw [h]; rfl
  · rfl

namespace Guarded

theorem mem_guards (h : w.Guarded) {busy : Bool}
    (hget : w.shared.handles.get? name = some ⟨.guard, busy⟩) : name ∈ w.guards :=
  (Handles.mem_guards h.held.nodup).2 ⟨busy, hget⟩

theorem nodup (h : w.Guarded) : w.guards.Nodup := h.held.nodup.sublist (Handles.guards_sublist _)

theorem producers_ne_zero (h : w.Guarded) (hn : name ∈ w.guards) :
    w.shared.queue.producers ≠ 0 := by
  rw [h.producers_eq]
  exact (List.length_pos_of_mem hn).ne'

/-- A guard that is ended is counted out, and its task goes on to leave a marker. -/
theorem lower (h : w.Guarded) (hcalm : ¬w.LoggerPanics t Logbook.panicText)
    (he : w.engagement? t = some e) (hs : e.spot = .opening .deregister)
    (hop : e.op = .finish name ∨ e.op = .drop name)
    (hget : w.shared.handles.get? name = some ⟨.guard, false⟩) :
    (w.shared.queue.sectionAt e.spot).2 = .go (.askFree .farewell) ∧
      w.counted t = [(name, .lowered)] ∧
      Counting w (w.advance Session.machine t).1 [(name, .lowered)] := by
  have hmem := h.mem_guards hget
  obtain ⟨r, q', move, hp, hmove, hproducers, hnotes⟩ := h.regular.section_of_calm he hcalm
  have hhandles := handles_advance he
  rw [hmove] at hhandles
  rw [hs] at hp
  rw [hmove]
  rcases hp.deregister_cases with ⟨hpoison | h0, -⟩ | ⟨n, hn, rfl, rfl⟩
  · cases h.readable.symm.trans hpoison
  · exact absurd h0 (h.producers_ne_zero hmem)
  · have hclaim : e.claim w.shared.handles = w.shared.handles.erase name := by
      rw [Engagement.claim, hs]
      rcases hop with hop | hop <;> rw [hop] <;> rfl
    have hguard : e.op.guard? = some name := by rcases hop with hop | hop <;> rw [hop] <;> rfl
    have hmarks := List.append_cancel_right
      (show [Note.lowered] ++ w.shared.queue.history = _ from hnotes)
    refine ⟨rfl, ?_, .ended hmem ?_ (hn.trans (congrArg (· + 1) hproducers.symm)) ?_⟩
    · rw [counted_of_guard he hguard, ← hmarks]
      rfl
    · rw [guards, hhandles, hclaim]
      exact Handles.guards_erase h.held.nodup name
    · rw [h.regular.tally_eq, ← hmarks]
      rfl

/-- **Whatever a step does to the count, it does it for a guard.** -/
theorem counting (h : w.Guarded) (t : Int)
    (hops : ∀ e, w.engagement? t = some e → e.op.bypassesGuards = false)
    (hcalm : ¬w.LoggerPanics t Logbook.panicText) :
    Counting w (w.advance Session.machine t).1 (w.counted t) := by
  rcases he : w.engagement? t with - | e
  · obtain ⟨hquiet, new, -, hnew⟩ := quiet_advance he
    obtain ⟨log, hlog⟩ := hquiet.queue_eq
    rw [counted, he, Option.bind_none]
    refine .same ((aside_advance he).guards_eq h.held.nodup) (by rw [hlog]) ?_
    rw [tally, hquiet.history_eq]
  · have hop := hops e he
    by_cases hd : e.spot = .opening .deregister
    · obtain ⟨name, hends, hget⟩ := ended_of_deregister he hd hop
      obtain ⟨-, hcounted, hstep⟩ := h.lower hcalm he hd hends hget
      rw [hcounted]
      exact hstep
    obtain ⟨r, q', move, hp, hmove, hproducers, hnotes⟩ := h.regular.section_of_calm he hcalm
    have hhandles := handles_advance he
    rw [hmove] at hhandles
    by_cases hr : e.spot = .opening .register
    · obtain ⟨name, hmakes, hpurpose⟩ := made_of_register he hr hop
      have hnew := h.regular.jobs.new_of_producer he hpurpose
      have hclaim : e.claim w.shared.handles = w.shared.handles := by
        rw [Engagement.claim, hr, hmakes]
        rfl
      rw [hclaim] at hnew hhandles
      rw [hr] at hp
      rcases hp.register_cases with ⟨hpoison, -⟩ | ⟨rfl, rfl⟩
      · cases h.readable.symm.trans hpoison
      · have hmarks := List.append_cancel_right
          (show [Note.raised] ++ w.shared.queue.history = _ from hnotes)
        rw [counted_of_guard he (by rw [hmakes]; rfl), ← hmarks]
        refine .made ?_ ?_ hproducers ?_
        · rw [guards, Handles.mem_guards h.held.nodup, hnew]
          rintro ⟨busy, ⟨⟩⟩
        · rw [guards, hhandles, Engagement.release, hpurpose, Purpose.release,
            Handles.guards_set_of_none hnew, if_pos rfl]
        · rw [h.regular.tally_eq, ← hmarks]
          rfl
    · obtain ⟨hnone, hcount⟩ := hp.counts_eq hnotes hr hd
      rw [counted_of_nothing hnone]
      refine .same ?_ ?_ (by rw [h.regular.tally_eq, hnone]; rfl)
      · rw [guards, hhandles]
        exact h.held.guards_eq h.regular.jobs he hr hd move
      · rw [hproducers]
        rcases hcount with hsame | ⟨hclear, h0⟩
        · exact hsame
        · rw [h0, h.producers_eq, guards_of_clear he hclear]
          rfl

/-- Nobody finds that there is no producer. -/
theorem error_ne_noProducers (h : w.Guarded) (he : w.engagement? t = some e)
    (hop : e.op.bypassesGuards = false) {r : Option Remark} {q' : Queue α}
    {move : Move (Phase α) Side (Outcome α)} (hp : w.shared.queue.Passage e.spot r q' move) :
    move.error? ≠ some .noProducers := by
  intro herror
  rcases hp.noProducers_cases herror with hspot | ⟨hd, h0⟩
  · cases hs : e.spot with
    | opening => rw [hs] at hspot; cases hspot
    | phase p =>
      rw [hs] at hspot
      refine h.sane p ?_ hspot
      rw [phases_of_engagement h.regular.sorted he, hs]
      exact Multiset.mem_add.2 (.inl (Multiset.mem_singleton_self _))
  · obtain ⟨name, -, hget⟩ := ended_of_deregister he hd hop
    exact h.producers_ne_zero (h.mem_guards hget) h0

/-- Nobody comes to find that there is no producer. -/
theorem sane_advance (h : w.Guarded) (t : Int)
    (hops : ∀ e, w.engagement? t = some e → e.op.bypassesGuards = false) :
    ∀ p ∈ (w.advance Session.machine t).1.phases, p.error? ≠ some .noProducers := by
  refine h.regular.keeps (I := fun _ phases => ∀ p ∈ phases, p.error? ≠ some .noProducers) h.sane
    (fun _ _ _ => id) ?_ ?_ ?_
  · intro q phases hI p hp
    rcases Multiset.mem_add.1 hp with hp | hp
    · rw [Multiset.mem_singleton.1 hp]
      exact nofun
    · exact hI p hp
  · exact fun q b p phases others hI p hp => hI p (Multiset.mem_add.2 (.inr hp))
  · intro e r q' move others he hphases halone hp p hmem
    rcases Multiset.mem_add.1 hmem with hmem | hmem
    · rw [← Move.error?_of_mem hmem]
      exact h.error_ne_noProducers he (hops e he) hp
    · exact h.sane p (hphases ▸ Multiset.mem_add.2 (.inr hmem))

theorem advance (h : w.Guarded) (t : Int)
    (hops : ∀ e, w.engagement? t = some e → e.op.bypassesGuards = false)
    (hcalm : ¬w.LoggerPanics t Logbook.panicText) :
    (w.advance Session.machine t).1.Guarded where
  regular := h.regular.happen (.advance t)
  held := h.held.advance h.regular t
  producers_eq := by
    have hstep := h.counting t hops hcalm
    generalize w.counted t = new at hstep
    cases hstep with
    | same hg hc => rw [hc, hg, h.producers_eq]
    | made hn hg hc => rw [hc, hg, h.producers_eq, List.length_append, List.length_singleton]
    | ended hn hg hc =>
      rw [hg, List.length_erase_of_mem hn, ← h.producers_eq, hc, Nat.add_sub_cancel]
  readable := by
    by_contra hpoisoned
    have hpoisoned := (h.regular.isPoisoned_advance t .producers).1
      (by simpa [Queue.isPoisoned] using hpoisoned)
    rcases hpoisoned with hbefore | ⟨record, -, hpanics, -⟩
    · cases h.readable.symm.trans hbefore
    · exact hcalm hpanics
  sane := h.sane_advance t hops

end Guarded

/-! ## Runs -/

/-- What is handed out in a run leaves registering to guards. -/
def LeftToGuards (hs : List (Happening (Operation α))) : Prop :=
  ∀ a, .handOut a ∈ hs → ∀ op, .perform op ∈ a.todo → op.bypassesGuards = false

/-- The logger panics in no step of a run. -/
def LoggerHolds (w : Traffic α) (hs : List (Happening (Operation α))) : Prop :=
  ∀ later t earlier, hs = later ++ .advance t :: earlier →
    ¬(w.after Session.machine earlier).LoggerPanics t Logbook.panicText

theorem LeftToGuards.of_cons {x : Happening (Operation α)} {hs : List (Happening (Operation α))}
    (h : LeftToGuards (x :: hs)) : LeftToGuards hs :=
  fun a ha => h a (List.mem_cons_of_mem _ ha)

theorem LoggerHolds.of_cons {x : Happening (Operation α)} {hs : List (Happening (Operation α))}
    (h : w.LoggerHolds (x :: hs)) : w.LoggerHolds hs :=
  fun later t earlier heq => h (x :: later) t earlier (by rw [heq]; rfl)

/-- Where no trap is set, the logger does not panic. -/
theorem loggerHolds_of_all {hs : List (Happening (Operation α))}
    (h : (hs.tails.all fun earlier =>
      (w.after Session.machine earlier).shared.queue.log.trap.isNone) = true) :
    w.LoggerHolds hs := by
  rintro later t earlier rfl ⟨-, hset, -⟩
  have hsuffix : earlier <:+ later ++ .advance t :: earlier := ⟨later ++ [.advance t], by simp⟩
  exact hset (Option.isNone_iff_eq_none.1 (List.all_eq_true.1 h _ ((List.mem_tails _ _).2 hsuffix)))

/-- What is done to the count for the guards of a name. -/
def notesFor (name : String) (countings : List (String × Note α)) : List (Note α) :=
  countings.filterMap fun x => if x.1 = name then some x.2 else none

theorem Counting.tally_eq {new : List (String × Note α)} (h : Counting w w' new) :
    w'.tally = new.map Prod.snd ++ w.tally := by
  cases h with
  | same hg hc ht => exact ht
  | made hn hg hc ht => exact ht
  | ended hn hg hc ht => exact ht

/-- A guard is counted in where there is none of its name, and counted out where there is one. -/
theorem Counting.alternate {new : List (String × Note α)} {notes : List (Note α)}
    (h : Counting w w' new) (hnodup : w.guards.Nodup)
    (hn : Alternate (decide (name ∈ w.guards)) notes) :
    Alternate (decide (name ∈ w'.guards)) (notesFor name new ++ notes) := by
  cases h with
  | same hg => rw [hg]; exact hn
  | @made other hother hg =>
    by_cases heq : other = name
    · subst heq
      rw [decide_eq_false hother] at hn
      simpa [notesFor, hg] using hn.raised
    · simpa [notesFor, hg, heq, Ne.symm heq] using hn
  | @ended other hother hg =>
    by_cases heq : other = name
    · subst heq
      rw [decide_eq_true hother] at hn
      simpa [notesFor, hg, hnodup.not_mem_erase] using hn.lowered
    · simpa [notesFor, hg, heq, List.mem_erase_of_ne (Ne.symm heq)] using hn

section Fresh

variable {capacity : Nat} {onEnqueue onDequeue : Option (Hook α)} {log : Logbook}

theorem LeftToGuards.of_engagement {hs : List (Happening (Operation α))} (hleft : LeftToGuards hs)
    (he : ((Traffic.fresh capacity onEnqueue onDequeue log).after Session.machine hs).engagement? t
      = some e) : e.op.bypassesGuards = false := by
  have hop := List.mem_append_right
    (((Traffic.fresh capacity onEnqueue onDequeue log).after Session.machine hs).finished t)
    (List.mem_cons_self (a := e.op) (l := e.todo.filterMap Instruction.op?))
  rw [← assigned_of_engagement he, assigned_after] at hop
  obtain ⟨a, ha, hperform⟩ :=
    exists_of_mem_given ((List.mem_append.1 hop).resolve_left List.not_mem_nil)
  exact hleft a ha e.op hperform

/-- Where registering is left to guards and the logger does not panic, every world is guarded. -/
theorem guarded_after (hpos : 0 < capacity) (hmax : capacity ≤ Semaphore.maxPermits)
    {hs : List (Happening (Operation α))} (hleft : LeftToGuards hs)
    (hholds : (Traffic.fresh capacity onEnqueue onDequeue log).LoggerHolds hs) :
    ((Traffic.fresh capacity onEnqueue onDequeue log).after Session.machine hs).Guarded := by
  induction hs with
  | nil =>
    exact ⟨regular_after _ _ _ hpos hmax [], held_after _ _ _ hpos hmax [], rfl, rfl,
      fun p hp => absurd hp (Multiset.notMem_zero p)⟩
  | cons x hs ih =>
    specialize ih hleft.of_cons hholds.of_cons
    cases x with
    | advance t => exact ih.advance t (fun e => hleft.of_cons.of_engagement) (hholds [] t hs rfl)
    | handOut a =>
      have hregular := regular_after onEnqueue onDequeue log hpos hmax (.handOut a :: hs)
      have hheld := held_after onEnqueue onDequeue log hpos hmax (.handOut a :: hs)
      rw [after_cons, World.happen] at hregular hheld ⊢
      refine ⟨hregular, hheld, ?_, ?_, ?_⟩
      · rw [guards, handOut_shared]; exact ih.producers_eq
      · rw [handOut_shared]; exact ih.readable
      · rw [(quiet_handOut _ a).phases_eq ih.regular.sorted]; exact ih.sane

/-- The count is raised and lowered in turn for every guard, and for nothing but guards. -/
theorem alternate_after (hpos : 0 < capacity) (hmax : capacity ≤ Semaphore.maxPermits)
    {hs : List (Happening (Operation α))} (hleft : LeftToGuards hs)
    (hholds : (Traffic.fresh capacity onEnqueue onDequeue log).LoggerHolds hs) :
    let w₀ := Traffic.fresh capacity onEnqueue onDequeue log
    let w := w₀.after Session.machine hs
    (w₀.countings hs).map Prod.snd = w.tally ∧
      ∀ name, Alternate (decide (name ∈ w.guards)) (notesFor name (w₀.countings hs)) := by
  intro w₀ w
  induction hs with
  | nil => exact ⟨rfl, fun name => .never⟩
  | cons x hs ih =>
    obtain ⟨htally, halternate⟩ := ih hleft.of_cons hholds.of_cons
    have hguarded : (w₀.after Session.machine hs).Guarded :=
      guarded_after hpos hmax hleft.of_cons hholds.of_cons
    cases x with
    | handOut a =>
      simp only [w, after_cons, World.happen, tally, guards, handOut_shared]
      exact ⟨htally, halternate⟩
    | advance t =>
      have hstep := hguarded.counting t (fun e => hleft.of_cons.of_engagement) (hholds [] t hs rfl)
      refine ⟨?_, fun name => ?_⟩
      · rw [countings, List.map_append, htally]
        exact hstep.tally_eq.symm
      · rw [countings, notesFor, List.filterMap_append]
        exact hstep.alternate hguarded.nodup (halternate name)

/-- **A guard is counted once, and counted out once.**  Where registering is left to guards and the
logger does not panic, the producers that a queue counts are the guards that there are, in every
world of every run, whatever hooks do and whichever calls are blocked or turned away.

Under every name the count is raised and lowered in turn, raised first, and it is up while there is
a guard of the name; nothing else raises or lowers it.  An operation that ends a guard lowers it in
its first step, before it goes on to its marker, and no call is told that there is no producer. -/
theorem guards_deregister_once (hpos : 0 < capacity) (hmax : capacity ≤ Semaphore.maxPermits)
    (hs : List (Happening (Operation α))) (hleft : LeftToGuards hs)
    (hholds : (Traffic.fresh capacity onEnqueue onDequeue log).LoggerHolds hs) :
    let w₀ := Traffic.fresh capacity onEnqueue onDequeue log
    let w := w₀.after Session.machine hs
    (w.shared.queue.producers = w.guards.length ∧ w.guards.Nodup) ∧
    (∀ name, Alternate (decide (name ∈ w.guards)) (notesFor name (w₀.countings hs))) ∧
    (w₀.countings hs).map Prod.snd = w.tally ∧
    (∀ t name op todo, w.tasks.get t = ⟨.idle, .perform op :: todo⟩ →
      op = .finish name ∨ op = .drop name → w.shared.handles.get? name = some ⟨.guard, false⟩ →
      ¬w.LoggerPanics t Logbook.panicText →
        w.counted t = [(name, .lowered)] ∧ ∃ purpose,
          (w.advance Session.machine t).1.tasks.get t =
            ⟨.inside op ⟨purpose, .askFree .farewell⟩, todo⟩) ∧
    ∀ t op, w.ending? t ≠ some (.ended op (.failed .noProducers)) := by
  intro w₀ w
  have hguarded : w.Guarded := guarded_after hpos hmax hleft hholds
  obtain ⟨htally, halternate⟩ := alternate_after hpos hmax hleft hholds
  refine ⟨⟨hguarded.producers_eq, hguarded.nodup⟩, halternate, htally, ?_, ?_⟩
  · intro t name op todo ht hends hget hcalm
    have he : ∃ purpose, w.engagement? t = some ⟨op, purpose, .opening .deregister, todo⟩ := by
      rcases hends with rfl | rfl <;> simp [engagement?, ht, Session.opening, hget]
    obtain ⟨purpose, he⟩ := he
    obtain ⟨hmove, hcounted, -⟩ := hguarded.lower hcalm he rfl hends hget
    refine ⟨hcounted, purpose, ?_⟩
    obtain ⟨⟨-, -, -, x, new, hx, htasks, -⟩, -⟩ := stride_advance he (Prod.eta _).symm
    rw [htasks, Roster.get_set_self]
    rw [hmove] at hx
    cases hx with
    | stay hp => rw [Multiset.singleton_inj.1 hp]
  · intro t op hending
    rcases he : w.engagement? t with - | e
    · rw [ending?, he] at hending
      cases hending
    · obtain ⟨r, q', move, hp, hm | ⟨hm, -⟩⟩ := hguarded.regular.section_cases he
      · refine hguarded.error_ne_noProducers he (hleft.of_engagement he) hp ?_
        rw [ending?, he, Option.bind_some, hm] at hending
        cases move with
        | go | wait | signal => cases hending
        | finish o => cases hending; rfl
      · rw [ending?, he, Option.bind_some, hm] at hending
        cases hending

end Fresh

/-- Three slots, and a hook that panics at one item. -/
def delicate : Traffic Nat :=
  .fresh 3
    (some (.ofVerdict fun _ entry => if entry = .item 9 then .panic "nine" else .accept))
    none (.blank none)

/-- Of two guards one fills a slot, and the other one sends what the hook panics at.  That poisons
the buffer and costs a slot.  When both are ended, the marker of one is turned away, which costs the
last slot, and the marker of the other one is blocked. -/
def farewells : List (Happening (Operation Nat)) :=
  [.advance 2, .advance 2, .handOut ⟨2, [.perform (.drop "b")]⟩, .advance 1, .advance 1, .advance 1,
    .advance 1, .advance 1, .advance 1, .advance 1, .advance 1, .advance 1, .advance 1, .advance 1,
    .advance 1, .handOut ⟨1, [.perform (.producer "a"), .perform (.producer "b"),
      .perform (.send "a" 7), .perform (.send "b" 9), .perform (.finish "a")]⟩]

theorem guards_deregister_once_farewells :
    let w := delicate.after Session.machine farewells
    LeftToGuards farewells ∧ delicate.LoggerHolds farewells ∧
      w.shared.queue.bufferPoisoned = true ∧ w.phases = {.awaitFree .farewell} ∧
      w.shared.queue.producers = w.guards.length ∧ w.guards = [] ∧
      Alternate false (notesFor "a" (delicate.countings farewells)) ∧
      notesFor "a" (delicate.countings farewells) = [.lowered, .raised] ∧
      notesFor "b" (delicate.countings farewells) = [.lowered, .raised] := by
  intro w
  have hleft : LeftToGuards farewells := by
    intro a ha op hop
    simp only [farewells, List.mem_cons, reduceCtorEq, Happening.handOut.injEq, false_or,
      List.not_mem_nil, or_false] at ha
    rcases ha with rfl | rfl
    · simp only [List.mem_singleton, Instruction.perform.injEq] at hop
      rw [hop]
      rfl
    · simp only [List.mem_cons, Instruction.perform.injEq, List.not_mem_nil, or_false] at hop
      rcases hop with rfl | rfl | rfl | rfl | rfl <;> rfl
  have hholds : delicate.LoggerHolds farewells := by
    refine loggerHolds_of_all ?_
    decide +kernel
  obtain ⟨⟨hcount, -⟩, halternate, -⟩ :=
    guards_deregister_once (by decide) (by decide) farewells hleft hholds
  have hnone : w.guards = [] := by decide +kernel
  have hturns : Alternate (decide ("a" ∈ w.guards)) (notesFor "a" (delicate.countings farewells)) :=
    halternate "a"
  rw [hnone] at hturns
  exact ⟨hleft, hholds, by decide +kernel, by decide +kernel, hcount, hnone, hturns,
    by decide +kernel, by decide +kernel⟩

end World

end BoundedQueue
