/-!
# Handles

Tasks hold producer guards and iterators under names.  A `Handle` says which of the two it is and
whether a task is using it; `Handles` keeps them by name.
-/

set_option autoImplicit false

namespace BoundedQueue

/-- What a handle stands for. -/
inductive HandleKind where
  /-- A registered producer. -/
  | guard
  /-- A reader of items; `ended` says that it has come to an end. -/
  | iterator (ended : Bool)
  deriving DecidableEq, Repr

/-- A guard or an iterator. -/
structure Handle where
  kind : HandleKind
  /-- A task is inside an operation on it. -/
  busy : Bool
  deriving DecidableEq, Repr

/-- Handles by name, in the order in which they were made. -/
abbrev Handles : Type := List (String × Handle)

namespace Handles

/-- No handle yet. -/
def empty : Handles := []

/-- The handle of a name. -/
def get? : Handles → String → Option Handle
  | [], _ => none
  | (name, h) :: rest, wanted => if name = wanted then some h else get? rest wanted

/-- Puts a handle under a name, in place of an earlier one. -/
def set : Handles → String → Handle → Handles
  | [], wanted, h => [(wanted, h)]
  | (name, old) :: rest, wanted, h =>
    if name = wanted then (name, h) :: rest else (name, old) :: set rest wanted h

/-- Takes the handle of a name away. -/
def erase (hs : Handles) (unwanted : String) : Handles :=
  hs.filter fun entry => entry.1 != unwanted

end Handles

end BoundedQueue
