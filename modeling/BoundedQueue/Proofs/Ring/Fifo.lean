import BoundedQueue.Proofs.Ring.Contents
import BoundedQueue.Ring.Script

/-!
# Rings as lists

A `Fifo` is a list of bounded length that obeys the commands of a ring.  Instead of slots and
indices it keeps two counts, of the values that were put in and of those that were taken out since
it was cleared last.

* `Ring.Represents` says that a ring holds the values of a list, with its indices where the counts
  have left them.  One command keeps it, and is answered alike (`Ring.Represents.obey`); so what is
  seen of a whole script is what is seen of the list.
* `Ring.ListLike` says what is true of a ring at any point: where its values are, and what each
  command makes of them.
* `Ring.refines_fifo` says both of a new ring, for every script.
-/

set_option autoImplicit false

namespace BoundedQueue

variable {α : Type}

/-- A list of values, in the order in which they are taken out, and how many were put in and taken
out since the last clearing. -/
structure Fifo (α : Type) where
  contents : List α
  pushes : Nat
  pops : Nat

namespace Fifo

/-- No value, and none put in or taken out. -/
def fresh : Fifo α := ⟨[], 0, 0⟩

/-- The outline of a ring with `capacity` slots that was used like the list. -/
def outline (f : Fifo α) (capacity : Nat) : Outline where
  name := "RingBuffer"
  fields :=
    [("capacity", toString capacity), ("len", toString f.contents.length),
      ("head", toString (f.pops % capacity)), ("tail", toString (f.pushes % capacity))]

/-- Carries out one command on a list of at most `capacity` values. -/
def obey (capacity : Nat) (f : Fifo α) : Ring.Command α → Fifo α × Ring.Answer α
  | .push a =>
    if f.contents.length = capacity then (f, .full a)
    else (⟨f.contents ++ [a], f.pushes + 1, f.pops⟩, .done)
  | .pop =>
    match f.contents with
    | [] => (f, .empty)
    | a :: rest => (⟨rest, f.pushes, f.pops + 1⟩, .value a)
  | .peek =>
    match f.contents with
    | [] => (f, .nothing)
    | a :: _ => (f, .value a)
  | .clear => (fresh, .done)
  | .capacity => (f, .number capacity)
  | .pretty => (f, .text (f.outline capacity).block)
  | .unreadable => (f, .unreadable)

/-- An answer together with what the list shows. -/
def reading (capacity : Nat) (f : Fifo α) (answer : Ring.Answer α) : Ring.Reading α where
  answer := answer
  len := f.contents.length
  isEmpty := f.contents.isEmpty
  isFull := f.contents.length == capacity
  outline := (f.outline capacity).inline

/-- Carries out a list of commands, with a reading after each. -/
def obeyAll (capacity : Nat) (f : Fifo α) : List (Ring.Command α) → List (Ring.Reading α)
  | [] => []
  | c :: script =>
    let (f', answer) := f.obey capacity c
    f'.reading capacity answer :: f'.obeyAll capacity script

/-- The list after a list of commands. -/
def after (capacity : Nat) (f : Fifo α) (script : List (Ring.Command α)) : Fifo α :=
  script.foldl (fun f c => (f.obey capacity c).1) f

end Fifo

namespace Ring

/-- The ring after a list of commands. -/
def after (r : Ring α) (script : List (Command α)) : Ring α :=
  script.foldl (fun r c => (r.obey c).1) r

/-! ## Where the values are -/

variable {r : Ring α}

/-- A slot is in use if it is one of the first `len` ones from `head` on, and free if not. -/
theorem Sound.occupied_iff (h : r.Sound) {i : Nat} (hi : i < r.capacity) :
    r.slots[i]?.join.isSome ↔ ∃ k < r.len, i = (r.head + k) % r.capacity := by
  -- slot `i` is the `k`-th one from the head
  obtain ⟨k, hk, heq⟩ : ∃ k < r.capacity, i = (r.head + k) % r.capacity := by
    have hhead := h.head_lt
    by_cases hle : r.head ≤ i
    · exact ⟨i - r.head, by omega, by rw [wrap_eq hhead (by omega)]; split <;> omega⟩
    · exact ⟨i + r.capacity - r.head, by omega, by rw [wrap_eq hhead (by omega)]; split <;> omega⟩
  have hslot : r.slots[i]?.join.isSome ↔ k < r.len := by
    rw [heq]
    exact h.slot?_isSome k hk
  rw [hslot]
  constructor
  · exact fun hlt => ⟨k, hlt, heq⟩
  · rintro ⟨l, hl, heq'⟩
    have hlt : l < r.capacity := Nat.lt_of_lt_of_le hl h.len_le
    rwa [(wrap_inj h.head_lt hk hlt).1 (heq.symm.trans heq')]

theorem Sound.isFull_eq (h : r.Sound) : r.isFull = (r.contents.length == r.capacity) := by
  rw [h.length_contents, isFull]

/-! ## Rings that represent lists -/

/-- A ring with `capacity` slots that holds the values of a list, with its indices where the counts
of the list have left them. -/
structure Represents (r : Ring α) (capacity : Nat) (f : Fifo α) : Prop where
  sound : r.Sound
  capacity_eq : r.capacity = capacity
  contents_eq : r.contents = f.contents
  head_eq : r.head = f.pops % capacity
  tail_eq : r.tail = f.pushes % capacity

variable {capacity : Nat} {f : Fifo α}

theorem represents_fresh (hpos : 0 < capacity) :
    (empty capacity : Ring α).Represents capacity .fresh where
  sound := sound_empty hpos
  capacity_eq := capacity_empty capacity
  contents_eq := contents_empty capacity
  head_eq := (Nat.zero_mod capacity).symm
  tail_eq := (Nat.zero_mod capacity).symm

namespace Represents

theorem len_eq (h : r.Represents capacity f) : r.len = f.contents.length := by
  rw [← h.contents_eq, h.sound.length_contents]

theorem outline_eq (h : r.Represents capacity f) : r.outline = f.outline capacity := by
  rw [outline, h.capacity_eq, h.len_eq, h.head_eq, h.tail_eq]
  rfl

/-- A ring shows what the list shows that it represents. -/
theorem reading_eq (h : r.Represents capacity f) (answer : Answer α) :
    r.reading answer = f.reading capacity answer := by
  have hempty : r.isEmpty = f.contents.isEmpty := by rw [h.sound.isEmpty_eq, h.contents_eq]
  have hfull : r.isFull = (f.contents.length == capacity) := by
    rw [h.sound.isFull_eq, h.contents_eq, h.capacity_eq]
  rw [reading, h.len_eq, hempty, hfull, h.outline_eq]
  rfl

/-- A push moves the tail on by one slot. -/
theorem push {r' : Ring α} {a : α} (h : r.Represents capacity f) (hp : r.push? a = some r') :
    r'.Represents capacity ⟨f.contents ++ [a], f.pushes + 1, f.pops⟩ where
  sound := h.sound.push hp
  capacity_eq := (capacity_push hp).trans h.capacity_eq
  contents_eq := by rw [h.sound.contents_push hp, h.contents_eq]
  head_eq := by
    rw [← h.head_eq]
    simp only [push?, Option.ite_none_left_eq_some, Option.some.injEq] at hp
    obtain ⟨-, rfl⟩ := hp
    rfl
  tail_eq := by
    have htail : r.tail < r.capacity :=
      h.sound.tail_eq ▸ Nat.mod_lt _ (Nat.zero_lt_of_lt h.sound.head_lt)
    simp only [push?, Option.ite_none_left_eq_some, Option.some.injEq] at hp
    obtain ⟨-, rfl⟩ := hp
    show r.advance r.tail = _
    rw [advance_eq htail, h.tail_eq, h.capacity_eq, Nat.mod_add_mod]

/-- A pop moves the head on by one slot. -/
theorem pop {r' : Ring α} {a : α} {rest : List α} (h : r.Represents capacity f)
    (hp : r.pop? = some (a, r')) (hrest : r'.contents = rest) :
    r'.Represents capacity ⟨rest, f.pushes, f.pops + 1⟩ where
  sound := h.sound.pop hp
  capacity_eq := (capacity_pop hp).trans h.capacity_eq
  contents_eq := hrest
  head_eq := by
    simp only [pop?, Option.map_eq_some_iff, Prod.mk.injEq] at hp
    obtain ⟨b, -, -, rfl⟩ := hp
    show r.advance r.head = _
    rw [advance_eq h.sound.head_lt, h.head_eq, h.capacity_eq, Nat.mod_add_mod]
  tail_eq := by
    rw [← h.tail_eq]
    simp only [pop?, Option.map_eq_some_iff, Prod.mk.injEq] at hp
    obtain ⟨b, -, -, rfl⟩ := hp
    rfl

end Represents

/-! ## What a command comes to -/

theorem obey_push_full (a : α) (hfull : r.len = r.capacity) : r.obey (.push a) = (r, .full a) := by
  rw [obey, (push?_eq_none_iff r a).2 hfull]

theorem obey_push (a : α) (hroom : r.len ≠ r.capacity) :
    ∃ r', r.push? a = some r' ∧ r.obey (.push a) = (r', .done) := by
  obtain ⟨r', hp⟩ := Option.ne_none_iff_exists'.1 fun hnone =>
    hroom ((push?_eq_none_iff r a).1 hnone)
  exact ⟨r', hp, by rw [obey, hp]⟩

namespace Sound

theorem obey_pop_empty (h : r.Sound) (hempty : r.contents = []) :
    r.obey .pop = (r, .empty) := by
  have hpop : r.pop? = none := by
    rw [← Option.not_isSome_iff_eq_none, h.pop?_isSome, Decidable.not_not]
    exact h.contents_eq_nil_iff.1 hempty
  rw [obey, hpop]

/-- The slot at the head of a ring that is not empty is in use, so that the pop succeeds. -/
theorem obey_pop (h : r.Sound) {a : α} {rest : List α} (hcons : r.contents = a :: rest) :
    ∃ r', r.pop? = some (a, r') ∧ r'.contents = rest ∧ r.obey .pop = (r', .value a) := by
  have hlen : r.len ≠ 0 := fun h0 => by
    rw [h.contents_eq_nil_iff.2 h0] at hcons
    cases hcons
  obtain ⟨⟨b, r'⟩, hp⟩ := Option.isSome_iff_exists.1 (h.pop?_isSome.2 hlen)
  obtain ⟨rfl, hrest⟩ := List.cons_eq_cons.1 (hcons.symm.trans (h.contents_pop hp))
  exact ⟨r', hp, hrest.symm, by rw [obey, hp]⟩

theorem obey_peek (h : r.Sound) :
    r.obey .peek = (r, match r.contents with
      | [] => .nothing
      | a :: _ => .value a) := by
  rw [obey, h.peek?_eq_head?]
  cases r.contents <;> rfl

end Sound

/-- **A command does the same to a ring and to the list that it represents**, and is answered the
same. -/
theorem Represents.obey (h : r.Represents capacity f) (c : Command α) :
    (r.obey c).1.Represents capacity (f.obey capacity c).1 ∧
      (r.obey c).2 = (f.obey capacity c).2 := by
  cases c with
  | push a =>
    rw [Fifo.obey, ← h.len_eq]
    by_cases hfull : r.len = capacity
    · rw [obey_push_full a (hfull.trans h.capacity_eq.symm), if_pos hfull]
      exact ⟨h, rfl⟩
    · obtain ⟨r', hp, hobey⟩ := obey_push a (h.capacity_eq.symm ▸ hfull)
      rw [hobey, if_neg hfull]
      exact ⟨h.push hp, rfl⟩
  | pop =>
    rcases hcontents : r.contents with - | ⟨a, rest⟩
    · rw [h.sound.obey_pop_empty hcontents, Fifo.obey, ← h.contents_eq, hcontents]
      exact ⟨h, rfl⟩
    · obtain ⟨r', hp, hrest, hobey⟩ := h.sound.obey_pop hcontents
      rw [hobey, Fifo.obey, ← h.contents_eq, hcontents]
      exact ⟨h.pop hp hrest, rfl⟩
  | peek =>
    rw [h.sound.obey_peek, Fifo.obey, ← h.contents_eq]
    cases r.contents <;> exact ⟨h, rfl⟩
  | clear =>
    refine ⟨?_, rfl⟩
    rw [Ring.obey, clear, h.capacity_eq]
    exact represents_fresh (h.capacity_eq ▸ Nat.zero_lt_of_lt h.sound.head_lt)
  | capacity => exact ⟨h, congrArg Answer.number h.capacity_eq⟩
  | pretty => exact ⟨h, congrArg (fun o : Outline => Answer.text o.block) h.outline_eq⟩
  | unreadable => exact ⟨h, rfl⟩

theorem Represents.after (h : r.Represents capacity f) (script : List (Command α)) :
    (r.after script).Represents capacity (f.after capacity script) := by
  induction script generalizing r f with
  | nil => exact h
  | cons c script ih => exact ih (h.obey c).1

theorem Represents.obeyAll_eq (h : r.Represents capacity f) (script : List (Command α)) :
    r.obeyAll script = f.obeyAll capacity script := by
  induction script generalizing r f with
  | nil => rfl
  | cons c script ih =>
    obtain ⟨hnext, hanswer⟩ := h.obey c
    show (r.obey c).1.reading (r.obey c).2 :: (r.obey c).1.obeyAll script = _
    rw [hanswer, hnext.reading_eq, ih hnext]
    rfl

/-! ## What is true of every ring -/

/-- A ring with `capacity` slots is a list: its values are in the slots from `head` to `tail`, and
nothing else is in a slot; commands make of them what they make of a list. -/
structure ListLike (r : Ring α) (capacity : Nat) : Prop where
  size_eq : r.slots.size = capacity
  head_lt : r.head < capacity
  tail_lt : r.tail < capacity
  len_le : r.len ≤ capacity
  tail_eq : r.tail = (r.head + r.len) % capacity
  occupied_iff : ∀ i < capacity,
    r.slots[i]?.join.isSome ↔ ∃ k < r.len, i = (r.head + k) % capacity
  /-- The values are those of the slots in use. -/
  contents_eq : ∀ k < r.len, r.contents[k]? = r.slots[(r.head + k) % capacity]?.join
  len_eq : r.len = r.contents.length
  isEmpty_eq : r.isEmpty = r.contents.isEmpty
  isFull_eq : r.isFull = (r.contents.length == capacity)
  /-- A full ring hands the value back, and stays as it is. -/
  push_full : ∀ a, r.contents.length = capacity → r.obey (.push a) = (r, .full a)
  push : ∀ a, r.contents.length ≠ capacity →
    ∃ r', r.obey (.push a) = (r', .done) ∧ r'.contents = r.contents ++ [a]
  /-- An empty ring has nothing to give, and stays as it is. -/
  pop_empty : r.contents = [] → r.obey .pop = (r, .empty)
  pop : ∀ a rest, r.contents = a :: rest →
    ∃ r', r.obey .pop = (r', .value a) ∧ r'.contents = rest
  /-- The slot at the head of a ring that is not empty is in use. -/
  head_occupied : r.isEmpty = false → r.slots[r.head]?.join.isSome
  peek : r.obey .peek = (r, match r.contents with
    | [] => .nothing
    | a :: _ => .value a)
  /-- A ring that is cleared is as good as new. -/
  clear : r.obey .clear = (empty capacity, .done)

theorem Sound.listLike (h : r.Sound) (hcap : r.capacity = capacity) : r.ListLike capacity := by
  subst hcap
  exact
    { size_eq := rfl
      head_lt := h.head_lt
      tail_lt := h.tail_eq ▸ Nat.mod_lt _ (Nat.zero_lt_of_lt h.head_lt)
      len_le := h.len_le
      tail_eq := h.tail_eq
      occupied_iff := fun _ hi => h.occupied_iff hi
      contents_eq := fun _ hk => h.getElem?_contents hk
      len_eq := h.length_contents.symm
      isEmpty_eq := h.isEmpty_eq
      isFull_eq := h.isFull_eq
      push_full := fun a hfull => obey_push_full a (h.length_contents.symm.trans hfull)
      push := fun a hroom => by
        obtain ⟨r', hp, hobey⟩ := obey_push a (h.length_contents ▸ hroom)
        exact ⟨r', hobey, h.contents_push hp⟩
      pop_empty := h.obey_pop_empty
      pop := fun a rest hcons => by
        obtain ⟨r', -, hrest, hobey⟩ := h.obey_pop hcons
        exact ⟨r', hobey, hrest⟩
      head_occupied := fun hne => by
        have hlen : r.len ≠ 0 := by simpa [isEmpty] using hne
        obtain ⟨b, hb, -⟩ := h.contents_eq_cons hlen
        rw [hb]
        rfl
      peek := h.obey_peek
      clear := rfl }

/-- **A ring is a list of bounded length**, whatever is asked of it.  It shows what a list shows
that is asked the same; it holds the values of that list, in slots that its head and tail delimit;
and these two have moved on once for every value that was taken out or put in since the ring was
cleared. -/
theorem refines_fifo (hpos : 0 < capacity) (script : List (Command α)) :
    let r := (empty capacity).after script
    let f := Fifo.fresh.after capacity script
    replay capacity script = .ok (Fifo.fresh.obeyAll capacity script) ∧
      r.ListLike capacity ∧
      r.contents = f.contents ∧ r.head = f.pops % capacity ∧ r.tail = f.pushes % capacity := by
  have hfresh : (empty capacity : Ring α).Represents capacity .fresh := represents_fresh hpos
  have h := hfresh.after script
  refine ⟨?_, h.sound.listLike h.capacity_eq, h.contents_eq, h.head_eq, h.tail_eq⟩
  rw [replay, if_neg (Nat.ne_of_gt hpos), hfresh.obeyAll_eq]

/-- Two slots, of which the first is used for the second time: the ring is full, with head and tail
at the last slot. -/
theorem refines_fifo_around :
    let script : List (Command Nat) := [.push 1, .push 2, .push 3, .pop, .push 4, .push 5]
    let r := (empty 2).after script
    0 < 2 ∧ r.ListLike 2 ∧ r.contents = [2, 4] ∧ r.head = 1 % 2 ∧ r.tail = 3 % 2 := by
  have h := refines_fifo (by decide : 0 < 2)
    ([.push 1, .push 2, .push 3, .pop, .push 4, .push 5] : List (Command Nat))
  exact ⟨by decide, h.2.1, h.2.2.1, h.2.2.2.1, h.2.2.2.2⟩

end Ring

end BoundedQueue
