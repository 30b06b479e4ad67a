import BoundedQueue.Proofs.Schedule.Waiting

/-!
# What a step does not look at

A step of a task reads the shared state, where the task itself stands and what it has left to do,
and whether any other task is inside an operation.  It does not read where exactly the others stand,
nor what has been reported.  So if only these are changed, the step does the same: it commutes with
`World.place` for another task, and with an exchange of the reports.
-/

set_option autoImplicit false

namespace BoundedQueue

variable {σ ω κ ι ρ : Type}

namespace Roster

variable {r : Roster ω κ} {t u : Int} {x : Task ω κ}

theorem othersOutside_iff (h : r.Sorted) :
    r.othersOutside t = true ↔ ∀ u, u ≠ t → (r.get u).isInside = false := by
  refine ⟨fun hout u hu => outside_of_othersOutside hout hu, fun hout => ?_⟩
  rw [othersOutside, List.all_eq_true]
  intro e he
  by_cases heq : e.1 = t
  · simp [heq]
  · have hget := hout e.1 heq
    rw [h.get_of_mem he] at hget
    simp [hget]

/-- A task may stand elsewhere, as long as it is inside an operation or not as before. -/
theorem othersOutside_set (h : r.Sorted) (hx : x.isInside = (r.get t).isInside) (u : Int) :
    (r.set t x).othersOutside u = r.othersOutside u := by
  rw [Bool.eq_iff_iff, othersOutside_iff (h.set t x), othersOutside_iff h]
  refine forall_congr' fun v => imp_congr_right fun _ => ?_
  rw [get_set]
  split
  · next heq => rw [hx, heq]
  · rfl

end Roster

namespace World

variable {m : Machine σ ω κ ι ρ} {w : World σ ω κ ρ} {t u : Int}

theorem place_place (w : World σ ω κ ρ) (t : Int) (standing standing' : Standing ω κ)
    (todo todo' : List (Instruction ω)) :
    (w.place t standing todo).place t standing' todo' = w.place t standing' todo' := by
  simp only [place, Roster.set_set]

theorem get_place_of_ne (w : World σ ω κ ρ) (h : u ≠ t) (standing : Standing ω κ)
    (todo : List (Instruction ω)) : (w.place t standing todo).tasks.get u = w.tasks.get u :=
  Roster.get_set_of_ne _ _ h

/-! ## Another task stands elsewhere -/

section Elsewhere

variable {standing : Standing ω κ} {todo : List (Instruction ω)}

theorem settleMove_place (h : u ≠ t) (op : ω) (todo' : List (Instruction ω)) (r : σ × Move κ ι ρ) :
    (w.place t standing todo).settleMove u op todo' r =
      ((w.settleMove u op todo' r).1.place t standing todo, (w.settleMove u op todo' r).2) := by
  obtain ⟨shared, move⟩ := r
  cases move <;> simp only [settleMove, place, report, Roster.set_comm w.tasks h]

/-- **A step does the same wherever another task stands.** -/
theorem advance_place (hw : w.tasks.Sorted) (h : u ≠ t)
    (hinside : Task.isInside ⟨standing, todo⟩ = (w.tasks.get t).isInside) :
    (w.place t standing todo).advance m u =
      ((w.advance m u).1.place t standing todo, (w.advance m u).2) := by
  have hget := get_place_of_ne w h standing todo
  have hout : (w.place t standing todo).tasks.othersOutside u = w.tasks.othersOutside u :=
    Roster.othersOutside_set hw hinside u
  rcases hx : w.tasks.get u with ⟨standing', todo'⟩
  rw [hx] at hget
  rcases standing' with - | - | ⟨op, k⟩
  · rcases todo' with - | ⟨op | _ | ⟨name, fault⟩, todo'⟩
    · rw [advance_of_nil m hx, advance_of_nil m hget]
    · rw [advance_of_perform m hx, advance_of_perform m hget, hout]
      exact settleMove_place h op todo' _
    · rw [advance_of_yield m hx, advance_of_yield m hget]
      simp only [place, Roster.set_comm w.tasks h]
    · rw [advance_of_unreadable m hx, advance_of_unreadable m hget]
      simp only [place, report, Roster.set_comm w.tasks h]
  · rw [advance_of_paused m hx, advance_of_paused m hget]
    simp only [place, report, Roster.set_comm w.tasks h]
  · rw [advance_of_inside m hx, advance_of_inside m hget]
    exact settleMove_place h op todo' _

/-- Work is handed out in the same way wherever an unfinished task stands. -/
theorem handOut_place (hbefore : (w.tasks.get t).isUnfinished = true)
    (hafter : Task.isUnfinished ⟨standing, todo⟩ = true) (a : Assignment ω) :
    (w.place t standing todo).handOut a = (w.handOut a).place t standing todo := by
  rw [handOut, handOut]
  by_cases h : a.task = t
  · have hself : (w.place t standing todo).tasks.get a.task = ⟨standing, todo⟩ := by
      rw [h]
      exact Roster.get_set_self _ _ _
    rw [hself, h, if_pos hafter, if_pos hbefore]
    rfl
  · rw [get_place_of_ne w h]
    split
    · rfl
    · split
      · rfl
      · simp only [place, Roster.set_comm w.tasks h]

end Elsewhere

/-! ## Something else was reported -/

/-- **A step does the same whatever was reported before.** -/
theorem advance_events_eq (m : Machine σ ω κ ι ρ) (w : World σ ω κ ρ) (u : Int) :
    ∃ new, (w.advance m u).1.events = new ++ w.events ∧ ∀ events,
      { w with events := events }.advance m u =
        ({ (w.advance m u).1 with events := new ++ events }, (w.advance m u).2) := by
  have hmove (op : ω) (todo : List (Instruction ω)) (r : σ × Move κ ι ρ) :
      ∃ new, (w.settleMove u op todo r).1.events = new ++ w.events ∧ ∀ events,
        ({ w with events := events } : World σ ω κ ρ).settleMove u op todo r =
          ({ (w.settleMove u op todo r).1 with events := new ++ events },
            (w.settleMove u op todo r).2) := by
    obtain ⟨shared, move⟩ := r
    cases move with
    | go | wait | signal => exact ⟨[], rfl, fun _ => rfl⟩
    | finish result => exact ⟨[⟨u, .completed op result⟩], rfl, fun _ => rfl⟩
  rcases hx : w.tasks.get u with ⟨standing', todo'⟩
  rcases standing' with - | - | ⟨op, k⟩
  · rcases todo' with - | ⟨op | _ | ⟨name, fault⟩, todo'⟩
    · rw [advance_of_nil m hx]
      exact ⟨[], rfl, fun events => advance_of_nil m hx⟩
    · obtain ⟨new, hnew, hsame⟩ := hmove op todo' (m.start (w.tasks.othersOutside u) op w.shared)
      rw [advance_of_perform m hx]
      refine ⟨new, hnew, fun events => ?_⟩
      rw [← hsame events]
      exact advance_of_perform m hx
    · rw [advance_of_yield m hx]
      exact ⟨[], rfl, fun events => advance_of_yield m hx⟩
    · rw [advance_of_unreadable m hx]
      exact ⟨[⟨u, .unreadable name fault⟩], rfl, fun events => advance_of_unreadable m hx⟩
  · rw [advance_of_paused m hx]
    exact ⟨[⟨u, .yielded⟩], rfl, fun events => advance_of_paused m hx⟩
  · obtain ⟨new, hnew, hsame⟩ := hmove op todo' (m.resume k w.shared)
    rw [advance_of_inside m hx]
    refine ⟨new, hnew, fun events => ?_⟩
    rw [← hsame events]
    exact advance_of_inside m hx

/-- Work is handed out in the same way whatever was reported before. -/
theorem handOut_events_eq (w : World σ ω κ ρ) (a : Assignment ω) :
    ∃ new, (w.handOut a).events = new ++ w.events ∧ ∀ events,
      ({ w with events := events } : World σ ω κ ρ).handOut a =
        { w.handOut a with events := new ++ events } := by
  by_cases hbusy : (w.tasks.get a.task).isUnfinished = true
  · exact ⟨[⟨a.task, .busy⟩], by rw [handOut, if_pos hbusy]; rfl, fun events => by
      rw [handOut, handOut, if_pos hbusy, if_pos hbusy]; rfl⟩
  · refine ⟨[], by rw [handOut, if_neg hbusy]; split <;> rfl, fun events => ?_⟩
    rw [handOut, handOut, if_neg hbusy, if_neg hbusy]
    split <;> rfl

end World

end BoundedQueue
