import BoundedQueue.Proofs.Session.Accounts
import Mathlib.Algebra.BigOperators.Group.Finset.Basic
import Mathlib.Algebra.BigOperators.Group.Finset.Piecewise
import Mathlib.Data.List.TakeWhile

/-!
# Totals

What a task has pushed and popped in all is what its operations did, one after the other, and what
the operation in which it stands has done so far: `Balanced.pushed_eq` and `Balanced.popped_eq`.

The marks of a task are those of its operations that are over, each with the mark that ended it, and
those of the open part (`filterMap_parts`).  So whatever is known of every operation that is over
adds up (`flatMap_closedParts`).  The items of a single task can be picked out of the list of all of
them (`itemsOf`), and `sum_itemsOf` puts together those of several tasks again.
-/

set_option autoImplicit false

namespace BoundedQueue

variable {α : Type}

/-! ## The parts of a chronicle make up the whole -/

section Parts

variable {β : Type} {ends : Mark α → Bool} {f : Mark α → Option β}

/-- Every mark is in one of the parts, but for those that end them. -/
theorem filterMap_parts (hf : ∀ m, ends m = true → f m = none) (ms : List (Mark α)) :
    ms.filterMap f = (openPart ends ms).filterMap f ++
      (closedParts ends ms).flatMap fun x => x.2.filterMap f := by
  induction ms with
  | nil => rfl
  | cons m ms ih =>
    rw [closedParts]
    split
    · next h => rw [List.filterMap_cons_none (hf m h), openPart_cons_of_ends h, ih]; rfl
    · next h =>
      rw [openPart_cons_of_not (by simpa using h), List.filterMap_cons, List.filterMap_cons, ih]
      split <;> rfl

/-- What is known of every operation that is over adds up over all of them. -/
theorem flatMap_closedParts {g : Operation α × Answer α → List β} {ms : List (Mark α)}
    (h : ∀ op a part, (.completed op a, part) ∈ closedParts Mark.endsOperation ms →
      part.filterMap f = g (op, a)) :
    (closedParts Mark.endsOperation ms).flatMap (fun x => x.2.filterMap f) =
      (ms.filterMap Mark.completed?).flatMap g := by
  induction ms with
  | nil => rfl
  | cons m ms ih =>
    cases m with
    | noted | ended => exact ih h
    | completed op a =>
      have hrest := ih fun op' a' part hm => h op' a' part (List.mem_cons_of_mem _ hm)
      have hparts : closedParts Mark.endsOperation (.completed op a :: ms) =
          (.completed op a, openPart Mark.endsOperation ms) ::
            closedParts Mark.endsOperation ms := if_pos rfl
      rw [hparts] at h ⊢
      rw [List.flatMap_cons, h op a _ List.mem_cons_self, hrest]
      rfl

theorem mem_of_closedParts {m : Mark α} {ms part : List (Mark α)}
    (h : (m, part) ∈ closedParts ends ms) : m ∈ ms := by
  induction ms with
  | nil => cases h
  | cons m' ms ih =>
    rw [closedParts] at h
    split at h
    · rcases List.mem_cons.1 h with h | h
      · cases h; exact List.mem_cons_self
      · exact List.mem_cons_of_mem _ (ih h)
    · exact List.mem_cons_of_mem _ (ih h)

end Parts

section Books

variable {ms : List (Mark α)}

/-- The operations of a task account for everything that it has pushed. -/
theorem Balanced.pushed_eq (h : Balanced ms) :
    pushedItems ms = pushedItems (openPart Mark.endsOperation ms) ++
      (ms.filterMap Mark.completed?).flatMap fun x => x.2.deposits x.1.offered := by
  have hends (m : Mark α) (hm : m.endsOperation = true) : m.pushedItem? = none := by
    cases m <;> first | rfl | cases hm
  have hparts := flatMap_closedParts (f := Mark.pushedItem?)
    (g := fun x => x.2.deposits x.1.offered) fun op a part hm => (h.operations op a part hm).1
  rw [pushedItems, filterMap_parts hends, hparts]
  rfl

/-- They account for everything that it has popped if none of them panicked. -/
theorem Balanced.popped_eq (h : Balanced ms)
    (hcalm : ∀ x ∈ ms.filterMap Mark.completed?, ∀ text, x.2 ≠ .panicked text) :
    poppedItems ms = poppedItems (openPart Mark.endsOperation ms) ++
      (ms.filterMap Mark.completed?).flatMap fun x => x.2.items.reverse := by
  have hends (m : Mark α) (hm : m.endsOperation = true) : m.poppedItem? = none := by
    cases m <;> first | rfl | cases hm
  have hparts := flatMap_closedParts (f := Mark.poppedItem?) (g := fun x => x.2.items.reverse)
    fun op a part hm => by
      have hmem : (op, a) ∈ ms.filterMap Mark.completed? :=
        List.mem_filterMap.2 ⟨_, mem_of_closedParts hm, rfl⟩
      rw [← (h.operations op a part hm).2 (hcalm _ hmem), List.reverse_reverse]
      rfl
  rw [poppedItems, filterMap_parts hends, hparts]
  rfl

end Books

/-! ## The items of a task -/

theorem itemsOf_cons (t u : Int) (a : α) (items : List (Int × α)) :
    itemsOf t ((u, a) :: items) = if u = t then a :: itemsOf t items else itemsOf t items := by
  rw [itemsOf, List.filter_cons]
  by_cases h : u = t
  · rw [if_pos (decide_eq_true h), if_pos h]; rfl
  · rw [if_neg (by simpa using h), if_neg h]; rfl

theorem itemsOf_eq_filterMap (t : Int) (items : List (Int × α)) :
    itemsOf t items = items.filterMap fun x => if x.1 = t then some x.2 else none := by
  induction items with
  | nil => rfl
  | cons x items ih =>
    obtain ⟨u, a⟩ := x
    rw [itemsOf_cons, List.filterMap_cons, ih]
    split
    · rfl
    · rfl

/-- What the marks of a task say is what the chronicle says about the task. -/
theorem filterMap_marksOf {β : Type} (f : Mark α → Option β) (t : Int) (c : List (Int × Mark α)) :
    (marksOf t c).filterMap f = (c.filterMap fun e => (f e.2).map (Prod.mk e.1)).filterMap
      fun x => if x.1 = t then some x.2 else none := by
  rw [marksOf, List.filterMap_filterMap, List.filterMap_filterMap]
  congr 1
  funext e
  obtain ⟨u, m⟩ := e
  by_cases h : u = t
  · cases hm : f m <;> simp [h, hm]
  · cases f m <;> simp [h]

theorem itemsOf_reverse (t : Int) (items : List (Int × α)) :
    itemsOf t items.reverse = (itemsOf t items).reverse := by
  rw [itemsOf, List.filter_reverse, List.map_reverse]
  rfl

theorem itemsOf_handedIn (t : Int) (c : List (Int × Mark α)) :
    itemsOf t (handedIn c) = (pushedItems (marksOf t (recentMarks c))).reverse := by
  rw [handedIn, itemsOf_reverse, itemsOf_eq_filterMap, ← filterMap_marksOf]
  rfl

theorem itemsOf_handedOut (t : Int) (c : List (Int × Mark α)) :
    itemsOf t (handedOut c) = (poppedItems (marksOf t (recentMarks c))).reverse := by
  rw [handedOut, itemsOf_reverse, itemsOf_eq_filterMap, ← filterMap_marksOf]
  rfl

/-- Where the ring was never emptied, everything that happened is recent. -/
theorem recentMarks_eq_self {c : List (Int × Mark α)}
    (h : ∀ n ∈ c.filterMap (·.2.note?), n.isEmptied = false) : recentMarks c = c := by
  refine List.takeWhile_eq_self_iff.2 fun e he => ?_
  rcases hn : e.2.note? with - | n
  · rfl
  · rw [Option.elim_some, h n (List.mem_filterMap.2 ⟨e, he, hn⟩)]
    rfl

/-- The items of all tasks make up the list, if the others have none. -/
theorem sum_itemsOf {s : Finset Int} {items : List (Int × α)}
    (h : ∀ t, t ∉ s → itemsOf t items = []) :
    ∑ t ∈ s, (itemsOf t items : Multiset α) = (items.map Prod.snd : Multiset α) := by
  induction items with
  | nil => exact Finset.sum_eq_zero fun _ _ => rfl
  | cons e items ih =>
    obtain ⟨u, a⟩ := e
    have hcons (t : Int) : (itemsOf t ((u, a) :: items) : Multiset α) =
        (if t = u then {a} else 0) + (itemsOf t items : Multiset α) := by
      rw [itemsOf_cons]
      by_cases hu : u = t
      · rw [if_pos hu, if_pos hu.symm]; rfl
      · rw [if_neg hu, if_neg (Ne.symm hu), zero_add]
    have hu : u ∈ s := by
      by_contra hu
      have hnil := h u hu
      rw [itemsOf_cons, if_pos rfl] at hnil
      cases hnil
    have hrest (t : Int) (ht : t ∉ s) : itemsOf t items = [] := by
      have hnil := h t ht
      rwa [itemsOf_cons, if_neg fun heq : u = t => ht (heq ▸ hu)] at hnil
    rw [Finset.sum_congr rfl fun t _ => hcons t, Finset.sum_add_distrib, ih hrest,
      Finset.sum_ite_eq', if_pos hu]
    rfl

end BoundedQueue
