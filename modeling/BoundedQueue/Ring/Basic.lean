import BoundedQueue.Text.Outline

/-!
# Rings

A ring is a first-in first-out store with a fixed number of slots.  Values are written at `tail`
and read at `head`; both indices move forward one slot at a time and go back to 0 after the last
slot.  The number of stored values is kept apart, so that a full ring and an empty one, whose
indices agree, can be told apart.

* `Ring.push?` and `Ring.pop?` write and read; they answer `none` on a full and on an empty ring.
* `Ring.peek?` shows the value that the next `pop?` takes.
* `Ring.contents` is the view that everything else is stated in: the stored values, oldest first.
-/

set_option autoImplicit false

namespace BoundedQueue

/-- A fixed number of slots, used in turn. -/
structure Ring (α : Type) where
  /-- The slots; a free slot holds `none`. -/
  slots : Array (Option α)
  /-- The slot that is read next. -/
  head : Nat
  /-- The slot that is written next. -/
  tail : Nat
  /-- How many values are stored. -/
  len : Nat

namespace Ring

variable {α : Type}

/-- The empty ring with `capacity` slots. -/
def empty (capacity : Nat) : Ring α where
  slots := Array.replicate capacity none
  head := 0
  tail := 0
  len := 0

/-- The number of slots. -/
def capacity (r : Ring α) : Nat := r.slots.size

/-- No value is stored. -/
def isEmpty (r : Ring α) : Bool := r.len == 0

/-- Every slot is in use. -/
def isFull (r : Ring α) : Bool := r.len == r.capacity

/-- The slot after slot `i`; after the last one comes slot 0. -/
def advance (r : Ring α) (i : Nat) : Nat := if i + 1 = r.capacity then 0 else i + 1

/-- Stores `a` behind all other values, unless the ring is full. -/
def push? (r : Ring α) (a : α) : Option (Ring α) :=
  if r.isFull then none
  else some
    { r with
      slots := r.slots.setIfInBounds r.tail (some a)
      tail := r.advance r.tail
      len := r.len + 1 }

/-- The oldest value, if there is one. -/
def peek? (r : Ring α) : Option α :=
  if r.isEmpty then none else r.slots[r.head]?.join

/-- Takes the oldest value out. -/
def pop? (r : Ring α) : Option (α × Ring α) :=
  r.peek?.map fun a =>
    (a,
      { r with
        slots := r.slots.setIfInBounds r.head none
        head := r.advance r.head
        len := r.len - 1 })

/-- The ring with every slot free and both indices back at 0. -/
def clear (r : Ring α) : Ring α := empty r.capacity

/-- The stored values, oldest first. -/
def contents (r : Ring α) : List α :=
  (List.range r.len).filterMap fun k => r.slots[(r.head + k) % r.capacity]?.join

/-- The name, size, fill and indices of a ring, without its values. -/
def outline (r : Ring α) : Outline where
  name := "RingBuffer"
  fields :=
    [("capacity", toString r.capacity), ("len", toString r.len), ("head", toString r.head),
      ("tail", toString r.tail)]

end Ring

end BoundedQueue
