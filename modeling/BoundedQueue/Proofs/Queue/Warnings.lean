import BoundedQueue.Proofs.Queue.Panics
import BoundedQueue.Proofs.Schedule.Run
import BoundedQueue.Queue.Builder

/-!
# Warnings

A queue warns of failures: of nothing else, and of every one.  A call that meets a failure goes on
at phases that remember it, and ends with it.  So it is enough that a section warns just when the
failure of its call is new: `Passage.isSome_error?_iff` is about passages, and
`isSome_error?_sectionAt_iff` about sections and the logbook in which they write.
-/

set_option autoImplicit false

namespace BoundedQueue

variable {α : Type}

/-- Whether a record warns of a failure. -/
def Record.isWarning (r : Record) : Bool := r.level = .warn

theorem Record.level_of_isWarning {r : Record} (h : r.isWarning = true) : r.level = .warn :=
  of_decide_eq_true h

namespace Logbook

/-- The warnings that a logbook has kept since it was `before`, oldest first. -/
def warningsSince (before after : Logbook) : List Record :=
  (newSince before.records after.records).filter Record.isWarning

variable {b : Logbook}

theorem warningsSince_self (b : Logbook) : b.warningsSince b = [] := by
  rw [warningsSince, show newSince b.records b.records = _ from newSince_append b.records []]
  rfl

/-- Where warnings are kept, a record leaves a warning if it is one. -/
theorem warningsSince_write_iff (hkeeps : b.keeps .warn = true) (r : Record) :
    b.warningsSince (b.write r) ≠ [] ↔ r.isWarning = true := by
  by_cases hkept : b.keeps r.level = true
  · have hnew : newSince b.records (b.write r).records = [r] := by
      rw [write, if_pos hkept]
      exact newSince_append b.records [r]
    rw [warningsSince, hnew, ne_eq, List.filter_eq_nil_iff]
    simp
  · have hsame : (b.write r).records = b.records := if_neg hkept
    have hnot : r.isWarning ≠ true := fun hr => hkept (Record.level_of_isWarning hr ▸ hkeeps)
    rw [warningsSince, hsame]
    exact iff_of_false (not_not_intro b.warningsSince_self) hnot

end Logbook

/-- The logbook of a builder has a warning just if the queue is refused. -/
theorem Builder.build_cases (b : Builder α) {log : Logbook} (hkeeps : log.keeps .warn = true) :
    (∃ q, b.build log = .ok q ∧ q.log = log) ∨
      ∃ e log', b.build log = .error (e, log') ∧ log.warningsSince log' ≠ [] := by
  rw [build]
  split
  · exact .inr ⟨_, _, rfl, (Logbook.warningsSince_write_iff hkeeps _).2 rfl⟩
  · exact .inl ⟨_, rfl, rfl⟩

/-! ## Failures in a call -/

section Spots

variable {spot : Spot α}

theorem error_of_asksFree {errand : Errand α} (h : spot.asksFree = some errand) :
    spot.error? = none := by
  cases spot with
  | opening => rfl
  | phase p =>
    rcases Spot.of_asksFree h (Multiset.mem_singleton_self p) with rfl | rfl <;> rfl

theorem error_of_asksFilled (h : spot.asksFilled = true) : spot.error? = none := by
  cases spot with
  | opening => rfl
  | phase p =>
    rcases Spot.of_asksFilled h (Multiset.mem_singleton_self p) with rfl | rfl <;> rfl

end Spots

namespace Queue

variable {q q' : Queue α} {spot : Spot α} {r : Option Remark}
  {move : Move (Phase α) Side (Outcome α)}

/-- **A passage warns of a failure that is new**: a call is going to fail after it just if it was
before, or if the passage warns. -/
theorem Passage.isSome_error?_iff (h : Passage q spot r q' move) :
    move.error?.isSome = true ↔
      spot.error?.isSome = true ∨ ∃ remark, r = some remark ∧ remark.record.isWarning = true := by
  cases h with
  | takeFree hs | waitFree hs => simp [error_of_asksFree hs, Move.error?, Phase.error?]
  | takeFilled hs | waitFilled hs => simp [error_of_asksFilled hs, Move.error?, Phase.error?]
  | vacate find =>
    cases find <;> simp [Move.error?, Spot.error?, Phase.error?, afterVacating]
  | _ => simp [Move.error?, Spot.error?, Phase.error?, Record.isWarning, Record.level]

/-- Whatever becomes of a remark, it is written, and the logbook keeps the levels that it kept. -/
theorem log_of_remarks {s : Section α} (h : Remarks q move r s) :
    r = none ∧ s.1.log = q.log ∨
      ∃ remark, r = some remark ∧ s.1.log = q.log.write remark.record := by
  cases h with
  | none => exact .inl ⟨rfl, rfl⟩
  | written => exact .inr ⟨_, rfl, rfl⟩
  | sprung => exact .inr ⟨_, rfl, log_sprung _ _⟩

/-- The logbook keeps the same levels after a section. -/
theorem detail_sectionAt (h : q.Workable spot) :
    (q.sectionAt spot).1.log.detail = q.log.detail := by
  obtain ⟨r, q', move, hp, hr⟩ := exists_remarks h
  rw [← hp.log_eq]
  obtain ⟨-, hlog⟩ | ⟨remark, -, hlog⟩ := log_of_remarks hr
  · rw [hlog]
  · rw [hlog, Logbook.write]

/-- **A section warns of a failure that is new**, unless it panics. -/
theorem isSome_error?_sectionAt_iff (h : q.Workable spot) (hkeeps : q.log.keeps .warn = true)
    (hcalm : ∀ text, (q.sectionAt spot).2 ≠ .finish (.panicked text)) :
    (q.sectionAt spot).2.error?.isSome = true ↔ spot.error?.isSome = true ∨
      q.log.warningsSince (q.sectionAt spot).1.log ≠ [] := by
  obtain ⟨r, q', move, hp, hr⟩ := exists_remarks h
  have hmove : (q.sectionAt spot).2 = move := by
    generalize q.sectionAt spot = s at hr hcalm
    cases hr with
    | none | written => rfl
    | sprung => exact absurd rfl (hcalm _)
  rw [hmove, hp.isSome_error?_iff]
  refine or_congr_right ?_
  obtain ⟨rfl, hlog⟩ | ⟨remark, rfl, hlog⟩ := log_of_remarks hr
  · rw [hlog, hp.log_eq, Logbook.warningsSince_self]
    simp
  · rw [hlog, hp.log_eq, Logbook.warningsSince_write_iff hkeeps]
    simp

end Queue

end BoundedQueue
