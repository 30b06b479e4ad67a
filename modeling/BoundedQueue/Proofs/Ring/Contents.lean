import BoundedQueue.Ring.Basic
import Mathlib.Data.List.Basic

/-!
# What a ring holds

A ring that is used as intended keeps its values in the `len` slots from `head` on, and `tail` is
the slot after them.  `Ring.Sound` says so, and every operation keeps it.

Through `Ring.contents` a sound ring is a list of bounded length:

* `Ring.Sound.push` appends at the end, and `Ring.push?_eq_none_iff` says when there is no room;
* `Ring.Sound.pop` takes the first value out, and `Ring.Sound.pop?_isSome` says when there is one;
* `Ring.Sound.peek?_eq_head?` shows the first value.

So nothing outside this file has to know about slots and indices.
-/

set_option autoImplicit false

namespace BoundedQueue

namespace Ring

variable {α : Type}

/-! ## Indices -/

/-- The value in the `k`-th slot from `head` on, if it holds one. -/
def slot? (r : Ring α) (k : Nat) : Option α := r.slots[(r.head + k) % r.capacity]?.join

/-- The slots in use are the first `len` ones from `head` on. -/
structure Sound (r : Ring α) : Prop where
  /-- The next slot to read is one of the ring's. -/
  head_lt : r.head < r.capacity
  /-- There is a slot for every value. -/
  len_le : r.len ≤ r.capacity
  /-- The next slot to write comes after the slots in use. -/
  tail_eq : r.tail = (r.head + r.len) % r.capacity
  /-- A slot holds a value when it is in use, and only then. -/
  slot?_isSome : ∀ k < r.capacity, (r.slot? k).isSome ↔ k < r.len

/-- Going `k` slots on from slot `i` wraps at most once. -/
theorem wrap_eq {i k c : Nat} (hi : i < c) (hk : k ≤ c) :
    (i + k) % c = if i + k < c then i + k else i + k - c := by
  split
  · next h => exact Nat.mod_eq_of_lt h
  · next h => rw [Nat.mod_eq_sub_mod (by omega), Nat.mod_eq_of_lt (by omega)]

theorem wrap_inj {i k l c : Nat} (hi : i < c) (hk : k < c) (hl : l < c) :
    (i + k) % c = (i + l) % c ↔ k = l := by
  rw [wrap_eq hi (Nat.le_of_lt hk), wrap_eq hi (Nat.le_of_lt hl)]
  split <;> split <;> omega

theorem advance_eq {r : Ring α} {i : Nat} (hi : i < r.capacity) :
    r.advance i = (i + 1) % r.capacity := by
  rw [wrap_eq hi (by omega), advance]
  split <;> split <;> omega

/-! ## Empty rings -/

theorem contents_eq (r : Ring α) : r.contents = (List.range r.len).filterMap r.slot? := rfl

@[simp] theorem capacity_empty (c : Nat) : (empty c : Ring α).capacity = c := by
  simp [capacity, empty]

@[simp] theorem contents_empty (c : Nat) : (empty c : Ring α).contents = [] := rfl

theorem sound_empty {c : Nat} (hc : 0 < c) : (empty c : Ring α).Sound where
  head_lt := by rw [capacity_empty]; exact hc
  len_le := Nat.zero_le _
  tail_eq := by simp [empty]
  slot?_isSome k hk := by
    rw [capacity_empty] at hk
    simp [slot?, empty, capacity, Nat.mod_lt k hc]

@[simp] theorem capacity_clear (r : Ring α) : r.clear.capacity = r.capacity := capacity_empty _

@[simp] theorem contents_clear (r : Ring α) : r.clear.contents = [] := rfl

@[simp] theorem len_clear (r : Ring α) : r.clear.len = 0 := rfl

namespace Sound

variable {r r' : Ring α} {a : α}

theorem clear (h : r.Sound) : r.clear.Sound := sound_empty (Nat.zero_lt_of_lt h.head_lt)

/-! ## Reading -/

/-- The first slots in use contribute their values, in order. -/
theorem filterMap_slot? (h : r.Sound) {n : Nat} (hn : n ≤ r.len) :
    ((List.range n).filterMap r.slot?).length = n ∧
      ∀ k < n, ((List.range n).filterMap r.slot?)[k]? = r.slot? k := by
  induction n with
  | zero => exact ⟨rfl, nofun⟩
  | succ n ih =>
    obtain ⟨hlen, hget⟩ := ih (by omega)
    obtain ⟨b, hb⟩ := Option.isSome_iff_exists.1
      ((h.slot?_isSome n (Nat.lt_of_lt_of_le hn h.len_le)).2 hn)
    have hsplit : (List.range (n + 1)).filterMap r.slot? =
        (List.range n).filterMap r.slot? ++ [b] := by
      simp [List.range_succ, List.filterMap_append, hb]
    rw [hsplit]
    refine ⟨by simp [hlen], fun k hk => ?_⟩
    by_cases hkn : k < n
    · rw [List.getElem?_append_left (by omega), hget k hkn]
    · obtain rfl : k = n := by omega
      rw [List.getElem?_append_right (by omega), hlen, Nat.sub_self, hb]
      rfl

/-- Every slot in use contributes its value. -/
theorem length_contents (h : r.Sound) : r.contents.length = r.len :=
  (h.filterMap_slot? (Nat.le_refl _)).1

/-- The values come in the order of their slots. -/
theorem getElem?_contents (h : r.Sound) {k : Nat} (hk : k < r.len) :
    r.contents[k]? = r.slot? k :=
  (h.filterMap_slot? (Nat.le_refl _)).2 k hk

theorem contents_eq_nil_iff (h : r.Sound) : r.contents = [] ↔ r.len = 0 := by
  rw [← List.length_eq_zero_iff, h.length_contents]

theorem isEmpty_eq (h : r.Sound) : r.isEmpty = r.contents.isEmpty := by
  rw [Bool.eq_iff_iff, List.isEmpty_iff, h.contents_eq_nil_iff, isEmpty, beq_iff_eq]

/-- The value at the head comes first. -/
theorem contents_eq_cons (h : r.Sound) (hr : r.len ≠ 0) :
    ∃ b, r.slots[r.head]?.join = some b ∧
      r.contents = b :: (List.range (r.len - 1)).filterMap fun k => r.slot? (k + 1) := by
  have h0 : r.slots[r.head]?.join = r.slot? 0 := by
    rw [slot?, Nat.add_zero, Nat.mod_eq_of_lt h.head_lt]
  obtain ⟨b, hb⟩ := Option.isSome_iff_exists.1
    ((h.slot?_isSome 0 (Nat.zero_lt_of_lt h.head_lt)).2 (Nat.pos_of_ne_zero hr))
  refine ⟨b, h0.trans hb, ?_⟩
  obtain ⟨n, hn⟩ := Nat.exists_eq_succ_of_ne_zero hr
  rw [contents_eq, hn, List.range_succ_eq_map]
  simp [hb, List.filterMap_map]

theorem peek?_eq_head? (h : r.Sound) : r.peek? = r.contents.head? := by
  rw [peek?, isEmpty]
  split
  · next hr => rw [h.contents_eq_nil_iff.2 (by simpa using hr)]; rfl
  · next hr =>
    obtain ⟨b, hb, hc⟩ := h.contents_eq_cons (by simpa using hr)
    rw [hb, hc]; rfl

theorem peek?_eq_none_iff (h : r.Sound) : r.peek? = none ↔ r.len = 0 := by
  rw [h.peek?_eq_head?, List.head?_eq_none_iff, h.contents_eq_nil_iff]

theorem pop?_isSome (h : r.Sound) : r.pop?.isSome ↔ r.len ≠ 0 := by
  rw [pop?, Option.isSome_map, Option.isSome_iff_ne_none, Ne, h.peek?_eq_none_iff]

/-! ## Writing -/

end Sound

theorem push?_eq_none_iff (r : Ring α) (a : α) : r.push? a = none ↔ r.len = r.capacity := by
  simp [push?, isFull]

/-- What a push does to the slots, seen from the head. -/
theorem slot?_push {r r' : Ring α} {a : α} (h : r.Sound) (hp : r.push? a = some r') {k : Nat}
    (hk : k < r.capacity) : r'.slot? k = if k = r.len then some a else r.slot? k := by
  simp only [push?, isFull, beq_iff_eq, Option.ite_none_left_eq_some, Option.some.injEq] at hp
  obtain ⟨hroom, rfl⟩ := hp
  have hlen : r.len < r.capacity := Nat.lt_of_le_of_ne h.len_le hroom
  have htail : (r.head + r.len) % r.capacity < r.slots.size :=
    Nat.mod_lt _ (Nat.zero_lt_of_lt hk)
  simp only [slot?, capacity, Array.size_setIfInBounds, h.tail_eq]
  rw [← capacity, Array.getElem?_setIfInBounds]
  by_cases hkl : k = r.len
  · subst hkl
    rw [if_pos rfl, if_pos rfl, if_pos htail]; rfl
  · rw [if_neg hkl, if_neg fun he => hkl ((wrap_inj h.head_lt hlen hk).1 he).symm]

theorem capacity_push {r r' : Ring α} {a : α} (hp : r.push? a = some r') :
    r'.capacity = r.capacity := by
  simp only [push?, Option.ite_none_left_eq_some, Option.some.injEq] at hp
  obtain ⟨-, rfl⟩ := hp
  simp [capacity]

theorem len_push {r r' : Ring α} {a : α} (hp : r.push? a = some r') : r'.len = r.len + 1 := by
  simp only [push?, Option.ite_none_left_eq_some, Option.some.injEq] at hp
  obtain ⟨-, rfl⟩ := hp
  rfl

theorem lt_of_push {r r' : Ring α} {a : α} (h : r.Sound) (hp : r.push? a = some r') :
    r.len < r.capacity := by
  refine Nat.lt_of_le_of_ne h.len_le fun hfull => ?_
  rw [(push?_eq_none_iff r a).2 hfull] at hp
  cases hp

/-- What a pop does to the slots, seen from the new head. -/
theorem slot?_pop {r r' : Ring α} {a : α} (h : r.Sound) (hp : r.pop? = some (a, r')) {k : Nat}
    (hk : k < r.capacity) : r'.slot? k = if k + 1 < r.capacity then r.slot? (k + 1) else none := by
  simp only [pop?, Option.map_eq_some_iff, Prod.mk.injEq] at hp
  obtain ⟨b, -, -, rfl⟩ := hp
  have hcap : (r.slots.setIfInBounds r.head none).size = r.capacity := Array.size_setIfInBounds
  show (r.slots.setIfInBounds r.head none)[(r.advance r.head + k) % _]?.join = _
  rw [capacity, hcap, advance_eq h.head_lt, Array.getElem?_setIfInBounds]
  have hsplit : ((r.head + 1) % r.capacity + k) % r.capacity = (r.head + (k + 1)) % r.capacity := by
    rw [Nat.mod_add_mod, Nat.add_assoc, Nat.add_comm 1 k]
  rw [hsplit]
  have hhead : r.head < r.slots.size := h.head_lt
  by_cases hlast : k + 1 < r.capacity
  · have hne : r.head ≠ (r.head + (k + 1)) % r.capacity := by
      rw [wrap_eq h.head_lt (by omega)]
      split <;> omega
    rw [if_pos hlast, if_neg hne, slot?]
  · have heq : r.head = (r.head + (k + 1)) % r.capacity := by
      rw [wrap_eq h.head_lt (by omega)]
      split <;> omega
    rw [if_neg hlast, if_pos heq, if_pos hhead]; rfl

theorem capacity_pop {r r' : Ring α} {a : α} (hp : r.pop? = some (a, r')) :
    r'.capacity = r.capacity := by
  simp only [pop?, Option.map_eq_some_iff, Prod.mk.injEq] at hp
  obtain ⟨b, -, -, rfl⟩ := hp
  simp [capacity]

theorem peek?_of_pop {r r' : Ring α} {a : α} (hp : r.pop? = some (a, r')) :
    r.peek? = some a := by
  simp only [pop?, Option.map_eq_some_iff, Prod.mk.injEq] at hp
  obtain ⟨b, hb, rfl, -⟩ := hp
  exact hb

namespace Sound

variable {r r' : Ring α} {a : α}

theorem len_pop (h : r.Sound) (hp : r.pop? = some (a, r')) : r.len = r'.len + 1 := by
  have hr : r.len ≠ 0 := h.pop?_isSome.1 (by rw [hp]; rfl)
  simp only [pop?, Option.map_eq_some_iff, Prod.mk.injEq] at hp
  obtain ⟨b, -, -, rfl⟩ := hp
  exact (Nat.succ_pred hr).symm

/-- A push keeps a ring sound. -/
theorem push (h : r.Sound) (hp : r.push? a = some r') : r'.Sound := by
  have hlen := lt_of_push h hp
  have hcap := capacity_push hp
  have hslot := fun k hk => slot?_push h hp (k := k) hk
  have hlen' := len_push hp
  simp only [push?, Option.ite_none_left_eq_some, Option.some.injEq] at hp
  obtain ⟨-, rfl⟩ := hp
  refine ⟨hcap ▸ h.head_lt, by rw [hlen', hcap]; exact hlen, ?_, fun k hk => ?_⟩
  · have htail : r.tail < r.capacity := h.tail_eq ▸ Nat.mod_lt _ (Nat.zero_lt_of_lt hlen)
    rw [hcap, hlen']
    show r.advance r.tail = _
    rw [advance_eq htail, h.tail_eq, Nat.mod_add_mod, Nat.add_assoc]
  · rw [hcap] at hk
    rw [hslot k hk, hlen']
    split
    · next he => simp [he]
    · next he => rw [h.slot?_isSome k hk]; omega

/-- A push appends at the end. -/
theorem contents_push (h : r.Sound) (hp : r.push? a = some r') :
    r'.contents = r.contents ++ [a] := by
  have hlen := lt_of_push h hp
  rw [contents_eq, len_push hp, List.range_succ, List.filterMap_append, contents_eq]
  congr 1
  · refine List.filterMap_congr fun k hk => ?_
    have hk' : k < r.len := List.mem_range.1 hk
    rw [slot?_push h hp (by omega), if_neg (by omega)]
  · simp [slot?_push h hp hlen]

/-- A pop keeps a ring sound. -/
theorem pop (h : r.Sound) (hp : r.pop? = some (a, r')) : r'.Sound := by
  have hcap := capacity_pop hp
  have hslot := fun k hk => slot?_pop h hp (k := k) hk
  have hlen' := h.len_pop hp
  simp only [pop?, Option.map_eq_some_iff, Prod.mk.injEq] at hp
  obtain ⟨b, -, -, rfl⟩ := hp
  have hle := h.len_le
  have hhead := h.head_lt
  refine ⟨?_, by rw [hcap]; omega, ?_, fun k hk => ?_⟩
  · rw [hcap]
    show r.advance r.head < _
    rw [advance_eq hhead]
    exact Nat.mod_lt _ (Nat.zero_lt_of_lt hhead)
  · rw [hcap]
    show r.tail = (r.advance r.head + (r.len - 1)) % _
    rw [advance_eq hhead, Nat.mod_add_mod, h.tail_eq]
    congr 1
    simp only at hlen'
    omega
  · rw [hcap] at hk
    rw [hslot k hk]
    split
    · next hlt => rw [h.slot?_isSome _ hlt]; omega
    · next hlt => simp only [Option.isSome_none, Bool.false_eq_true, false_iff]; omega

/-- A pop takes the first value out. -/
theorem contents_pop (h : r.Sound) (hp : r.pop? = some (a, r')) :
    r.contents = a :: r'.contents := by
  have hlen' := h.len_pop hp
  have hle := h.len_le
  obtain ⟨b, hb, hc⟩ := h.contents_eq_cons (by omega)
  have hab : b = a := by
    have hpeek := peek?_of_pop hp
    rw [h.peek?_eq_head?, hc] at hpeek
    exact Option.some_inj.1 hpeek
  rw [hc, hab, contents_eq, hlen', Nat.add_sub_cancel]
  congr 1
  refine List.filterMap_congr fun k hk => ?_
  have hk' : k < r'.len := List.mem_range.1 hk
  rw [slot?_pop h hp (by omega), if_pos (by omega)]

end Sound

/-! ## Exchanging values

A ring moves its values around and looks at none of them. -/

section Map

variable {β : Type} (g : α → β) (r : Ring α)

/-- The ring with every value exchanged. -/
def map : Ring β := ⟨r.slots.map (Option.map g), r.head, r.tail, r.len⟩

@[simp] theorem capacity_map : (r.map g).capacity = r.capacity := Array.size_map

theorem advance_map (i : Nat) : (r.map g).advance i = r.advance i := by
  rw [advance, capacity_map, advance]

theorem push?_map (a : α) : (r.map g).push? (g a) = (r.push? a).map (map g) := by
  have hfull : (r.map g).isFull = r.isFull := congrArg (r.len == ·) (r.capacity_map g)
  have hslots : (r.slots.map (Option.map g)).setIfInBounds r.tail ((some a).map g) =
      (r.slots.setIfInBounds r.tail (some a)).map (Option.map g) := Array.map_setIfInBounds.symm
  rw [push?, hfull, push?]
  split
  · rfl
  · show some (Ring.mk ((r.slots.map _).setIfInBounds r.tail ((some a).map g)) r.head
      ((r.map g).advance r.tail) (r.len + 1)) = _
    rw [hslots, advance_map]
    rfl

theorem peek?_map : (r.map g).peek? = r.peek?.map g := by
  have hslot : (r.map g).slots[r.head]?.join = r.slots[r.head]?.join.map g := by
    rw [map, Array.getElem?_map, Option.join_map_eq_map_join]
  rw [peek?, peek?]
  show (if r.isEmpty then none else (r.map g).slots[r.head]?.join) = _
  rw [hslot]
  split <;> rfl

theorem pop?_map : (r.map g).pop? = r.pop?.map (Prod.map g (map g)) := by
  have hslots : (r.slots.map (Option.map g)).setIfInBounds r.head ((none : Option α).map g) =
      (r.slots.setIfInBounds r.head none).map (Option.map g) := Array.map_setIfInBounds.symm
  rw [pop?, peek?_map, pop?, Option.map_map, Option.map_map]
  refine congrArg (Option.map · r.peek?) (funext fun a => Prod.ext rfl ?_)
  show Ring.mk ((r.slots.map _).setIfInBounds r.head ((none : Option α).map g))
    ((r.map g).advance r.head) r.tail (r.len - 1) = _
  rw [hslots, advance_map]
  rfl

theorem empty_map (c : Nat) : (empty c).map g = empty c := by
  rw [empty, map, Array.map_replicate]
  rfl

theorem clear_map : (r.map g).clear = r.clear.map g := by
  rw [clear, capacity_map, clear, empty_map]

@[simp] theorem map_id : map (id : α → α) = id := by
  funext r
  rw [map, Option.map_id, Array.map_id_fun]
  rfl

end Map

end Ring

end BoundedQueue
