import BoundedQueue.Error

/-!
# Hooks

A slot of the queue holds an `Entry`: an item, or the marker that stands for the end of input.  A
hook is shown an entry and decides on it.  It may remember what it was shown before, so its verdict
is a function of that history and of the entry.
-/

set_option autoImplicit false

namespace BoundedQueue

/-- What a slot of the queue holds. -/
inductive Entry (α : Type) where
  | item (a : α)
  /-- The marker for the end of input.  It is equal to no item. -/
  | eof
  deriving DecidableEq, Repr

/-- What a hook decides on an entry. -/
inductive Verdict where
  | accept
  | reject (cause : Cause)
  /-- The hook panics. -/
  | panic (text : String)
  deriving DecidableEq, Repr

/-- A judge of entries that may remember what it was shown. -/
structure Hook (α : Type) where
  /-- The entries shown so far, newest first, whatever was decided on them. -/
  shown : List (Entry α)
  /-- What the hook decides after a history, on a further entry. -/
  verdict : List (Entry α) → Entry α → Verdict

namespace Hook

variable {α : Type}

/-- A hook that was shown nothing yet. -/
def ofVerdict (verdict : List (Entry α) → Entry α → Verdict) : Hook α := ⟨[], verdict⟩

/-- What the hook decides on an entry that it is shown now. -/
def judge (h : Hook α) (e : Entry α) : Verdict := h.verdict h.shown e

/-- The hook after it was shown an entry. -/
def remember (h : Hook α) (e : Entry α) : Hook α := { h with shown := e :: h.shown }

end Hook

end BoundedQueue
