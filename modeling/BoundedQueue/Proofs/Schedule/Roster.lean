import BoundedQueue.Schedule.Task
import Mathlib.Algebra.BigOperators.Group.List.Basic
import Mathlib.Algebra.Order.Group.Multiset
import Mathlib.Algebra.BigOperators.Group.Multiset.Basic

/-!
# Adding up over a roster

Many a property of a world is about all its tasks at once: how many of them hold a permit, say.
Such a number is a `Roster.total`, a sum over the tasks with one summand for each.

A step of the world changes a single task.  `Roster.others` is the roster without it, which the
step leaves alone, so that `Roster.total_eq` and `Roster.total_set` split a total into the summand
of that task and a rest that stays the same.
-/

set_option autoImplicit false

namespace BoundedQueue

namespace Roster

variable {ω κ : Type}

/-! ## Looking up what was put in -/

@[simp] theorem get_set_self (r : Roster ω κ) (t : Int) (x : Task ω κ) : (r.set t x).get t = x := by
  induction r with
  | nil => simp [set, get]
  | cons e r ih =>
    obtain ⟨u, old⟩ := e
    rw [set]
    split
    · rw [get, if_pos rfl]
    · split
      · rw [get, if_pos rfl]
      · next hne => rw [get, if_neg fun h => hne h.symm, ih]

theorem get_set_of_ne (r : Roster ω κ) {t u : Int} (x : Task ω κ) (h : u ≠ t) :
    (r.set t x).get u = r.get u := by
  induction r with
  | nil => simp [set, get, h.symm]
  | cons e r ih =>
    obtain ⟨v, old⟩ := e
    rw [set]
    split
    · rw [get, if_neg fun he => h he.symm]
    · split
      · next he =>
        rw [get, get, if_neg fun hu => h hu.symm, if_neg fun hu => h (hu.symm.trans he.symm)]
      · rw [get, get, ih]

theorem get_set (r : Roster ω κ) (t u : Int) (x : Task ω κ) :
    (r.set t x).get u = if u = t then x else r.get u := by
  split
  · next h => rw [h, get_set_self]
  · next h => rw [get_set_of_ne r x h]

/-- Of two entries under one number the second one stays. -/
theorem set_set (r : Roster ω κ) (t : Int) (x y : Task ω κ) : (r.set t x).set t y = r.set t y := by
  induction r with
  | nil => simp [set]
  | cons e r ih =>
    obtain ⟨u, old⟩ := e
    by_cases hlt : t < u
    · simp [set, hlt]
    · by_cases heq : t = u
      · simp [set, heq]
      · simp [set, hlt, heq, ih]

/-- Two entries under different numbers go in in any order. -/
theorem set_comm (r : Roster ω κ) {t u : Int} (h : u ≠ t) (x y : Task ω κ) :
    (r.set u x).set t y = (r.set t y).set u x := by
  induction r with
  | nil => grind [set]
  | cons e r ih =>
    obtain ⟨v, old⟩ := e
    grind [set]

/-- A task that is not listed has no work. -/
theorem mem_or_get_eq_free (r : Roster ω κ) (t : Int) : (∃ x, (t, x) ∈ r) ∨ r.get t = .free := by
  induction r with
  | nil => exact .inr rfl
  | cons e r ih =>
    obtain ⟨u, x⟩ := e
    rw [get]
    split
    · next h => exact .inl ⟨x, h ▸ List.mem_cons_self⟩
    · exact ih.imp_left fun ⟨y, hy⟩ => ⟨y, List.mem_cons_of_mem _ hy⟩

/-! ## Rosters in order -/

/-- The numbers of the tasks ascend, so that no task is listed twice. -/
def Sorted (r : Roster ω κ) : Prop := r.Pairwise fun a b => a.1 < b.1

theorem sorted_empty : (empty : Roster ω κ).Sorted := .nil

theorem mem_set {r : Roster ω κ} {t : Int} {x : Task ω κ} {e : Int × Task ω κ}
    (h : e ∈ r.set t x) : e.1 = t ∨ e ∈ r := by
  induction r with
  | nil => rw [set, List.mem_singleton] at h; exact .inl (h ▸ rfl)
  | cons d r ih =>
    obtain ⟨u, old⟩ := d
    rw [set] at h
    split at h
    · rcases List.mem_cons.1 h with rfl | h
      · exact .inl rfl
      · exact .inr h
    · split at h
      · rcases List.mem_cons.1 h with rfl | h
        · exact .inl rfl
        · exact .inr (List.mem_cons_of_mem _ h)
      · rcases List.mem_cons.1 h with rfl | h
        · exact .inr List.mem_cons_self
        · exact (ih h).imp_right (List.mem_cons_of_mem _)

theorem Sorted.set {r : Roster ω κ} (h : r.Sorted) (t : Int) (x : Task ω κ) :
    (r.set t x).Sorted := by
  induction r with
  | nil => exact List.pairwise_singleton _ _
  | cons e r ih =>
    obtain ⟨u, old⟩ := e
    obtain ⟨hu, hr⟩ := List.pairwise_cons.1 h
    rw [Roster.set]
    split
    · next hlt =>
      refine List.pairwise_cons.2 ⟨fun d hd => ?_, h⟩
      rcases List.mem_cons.1 hd with rfl | hd
      · exact hlt
      · exact Int.lt_trans hlt (hu d hd)
    · split
      · next heq => exact List.pairwise_cons.2 ⟨fun d hd => heq ▸ hu d hd, hr⟩
      · next hnlt hne =>
        refine List.pairwise_cons.2 ⟨fun d hd => ?_, ih hr⟩
        rcases mem_set hd with hd | hd
        · show u < d.1
          omega
        · exact hu d hd

theorem Sorted.get_of_mem {r : Roster ω κ} (h : r.Sorted) {e : Int × Task ω κ} (he : e ∈ r) :
    r.get e.1 = e.2 := by
  induction r with
  | nil => cases he
  | cons d r ih =>
    obtain ⟨hd, hr⟩ := List.pairwise_cons.1 h
    rcases List.mem_cons.1 he with rfl | he
    · rw [get, if_pos rfl]
    · rw [get, if_neg (Int.ne_of_lt (hd e he)), ih hr he]

/-! ## The other tasks -/

/-- The roster without task `t`. -/
def others (r : Roster ω κ) (t : Int) : Roster ω κ := r.filter fun e => e.1 ≠ t

theorem others_cons (e : Int × Task ω κ) (r : Roster ω κ) (t : Int) :
    others (e :: r) t = if e.1 = t then others r t else e :: others r t := by
  rw [others, List.filter_cons]
  by_cases h : e.1 = t
  · rw [if_pos h, if_neg (by simpa using h)]; rfl
  · rw [if_neg h, if_pos (by simpa using h)]; rfl

@[simp] theorem others_set (r : Roster ω κ) (t : Int) (x : Task ω κ) :
    (r.set t x).others t = r.others t := by
  induction r with
  | nil => simp [set, others]
  | cons e r ih =>
    obtain ⟨u, old⟩ := e
    rw [set]
    split
    · rw [others_cons, if_pos rfl]
    · split
      · next heq => rw [others_cons, others_cons, if_pos rfl, if_pos heq.symm]
      · rw [others_cons, others_cons, ih]

theorem isInside_of_mem_others {r : Roster ω κ} {t : Int} (h : r.othersOutside t = true)
    {e : Int × Task ω κ} (he : e ∈ r.others t) : e.2.isInside = false := by
  rw [others, List.mem_filter] at he
  have hor := List.all_eq_true.1 h e he.1
  simp only [Bool.or_eq_true, beq_iff_eq, Bool.not_eq_true'] at hor
  exact hor.resolve_left (by simpa using he.2)

/-! ## Totals -/

variable {M : Type} [AddCommMonoid M]

/-- The sum of `f` over all tasks. -/
def total (f : Task ω κ → M) (r : Roster ω κ) : M := (r.map fun e => f e.2).sum

variable {f : Task ω κ → M} {r : Roster ω κ}

theorem total_cons (e : Int × Task ω κ) (r : Roster ω κ) :
    total f (e :: r) = f e.2 + total f r := by
  rw [total, List.map_cons, List.sum_cons]; rfl

theorem others_eq_self {t : Int} (h : ∀ e ∈ r, e.1 ≠ t) : r.others t = r :=
  List.filter_eq_self.2 fun e he => decide_eq_true (h e he)

/-- A total is the summand of one task and the total of the others. -/
theorem total_eq (h : r.Sorted) (hf : f .free = 0) (t : Int) :
    r.total f = f (r.get t) + (r.others t).total f := by
  induction r with
  | nil => rw [get, hf, zero_add]; rfl
  | cons e r ih =>
    obtain ⟨he, hr⟩ := List.pairwise_cons.1 h
    rw [total_cons, get, others_cons]
    split
    · next het =>
      rw [others_eq_self fun d hd => het ▸ (Int.ne_of_lt (he d hd)).symm]
    · rw [total_cons, ih hr, add_left_comm]

theorem total_set (h : r.Sorted) (hf : f .free = 0) (t : Int) (x : Task ω κ) :
    (r.set t x).total f = f x + (r.others t).total f := by
  rw [total_eq (h.set t x) hf t, get_set_self, others_set]

/-- Nothing is added up when every summand is 0. -/
theorem total_eq_zero (h : ∀ e ∈ r, f e.2 = 0) : r.total f = 0 :=
  List.sum_eq_zero fun _ hx => by
    obtain ⟨e, he, rfl⟩ := List.mem_map.1 hx
    exact h e he

/-- What is in a total of multisets comes from some task. -/
theorem exists_mem_of_mem_total {β : Type} {g : Task ω κ → Multiset β} (h : r.Sorted) {b : β}
    (hb : b ∈ r.total g) : ∃ t, b ∈ g (r.get t) := by
  have hmem : ∃ e ∈ r, b ∈ g e.2 := by
    clear h
    induction r with
    | nil => simp [total] at hb
    | cons e r ih =>
      rw [total_cons, Multiset.mem_add] at hb
      rcases hb with hb | hb
      · exact ⟨e, List.mem_cons_self, hb⟩
      · obtain ⟨d, hd, hbd⟩ := ih hb
        exact ⟨d, List.mem_cons_of_mem _ hd, hbd⟩
  obtain ⟨e, he, hbe⟩ := hmem
  exact ⟨e.1, by rwa [h.get_of_mem he]⟩

end Roster

end BoundedQueue
