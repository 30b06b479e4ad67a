/-!
# What can go wrong in a queue

* `Error` lists the failures of a queue's operations.  An operation that meets one is over; the
  queue never tries again by itself.
* `Refusal` is for the one operation that may also refuse an item because no slot is free, which is
  not a failure.

Every failure has a `message` and a `chain`: its own message followed by the messages of its
causes, from the nearest to the deepest.
-/

set_option autoImplicit false

namespace BoundedQueue

/-- The two ends of a queue at which a hook can be installed. -/
inductive Stage where
  | enqueue
  | dequeue
  deriving DecidableEq, Repr

/-- The word for a stage in messages. -/
def Stage.name : Stage → String
  | .enqueue => "enqueue"
  | .dequeue => "dequeue"

/-- Why a hook rejected an entry: its message, then the messages of what caused it in turn. -/
structure Cause where
  text : String
  deeper : List String
  deriving DecidableEq, Repr

namespace Cause

/-- A cause that nothing else caused. -/
def plain (text : String) : Cause := ⟨text, []⟩

/-- All messages of a cause, the nearest first. -/
def chain (c : Cause) : List String := c.text :: c.deeper

end Cause

/-- The failures of a queue's operations. -/
inductive Error where
  /-- A queue without slots was asked for. -/
  | zeroCapacity
  /-- A panic happened under the named lock, which refuses service ever since. -/
  | poisoned (lock : String)
  /-- The hook at `stage` rejected the entry. -/
  | hook (stage : Stage) (cause : Cause)
  /-- A producer was to be deregistered while none was registered. -/
  | noProducers
  /-- A permit was held, and the ring did not bear it out. -/
  | inconsistent (detail : String)
  deriving DecidableEq, Repr

namespace Error

/-- The message of a failure. -/
def message : Error → String
  | zeroCapacity => "capacity must be greater than 0"
  | poisoned lock => lock ++ " lock poisoned"
  | hook stage _ => stage.name ++ " hook failed"
  | noProducers => "no registered producer to deregister"
  | inconsistent detail => "inconsistent queue state: " ++ detail

/-- Only a hook's failure has a cause. -/
def cause? : Error → Option Cause
  | hook _ cause => some cause
  | _ => none

/-- The message of a failure, then those of its causes. -/
def chain (e : Error) : List String := e.message :: (e.cause?.map Cause.chain).getD []

/-- A failure as the cause of another one. -/
def toCause (e : Error) : Cause := ⟨e.message, (e.cause?.map Cause.chain).getD []⟩

/-- The failure of a push into a full ring, although a permit promised a free slot. -/
def ringFull : Error := .inconsistent "ring full with a free slot permit held"

/-- The failure of a read from an empty ring, although a permit promised a filled slot. -/
def ringEmpty : Error := .inconsistent "ring empty with a filled slot permit held"

end Error

/-- Why an item was not enqueued by an attempt that does not wait. -/
inductive Refusal (α : Type) where
  /-- No slot is free; the item is handed back. -/
  | full (item : α)
  | failed (e : Error)

namespace Refusal

variable {α : Type}

/-- The message of a refusal, which for a failure is the failure's own. -/
def message : Refusal α → String
  | full _ => "queue is full"
  | failed e => e.message

/-- Whether the attempt was refused for want of a free slot. -/
def isFull : Refusal α → Bool
  | full _ => true
  | failed _ => false

/-- The item that is handed back. -/
def item? : Refusal α → Option α
  | full item => some item
  | failed _ => none

/-- The failure that a refusal reports. -/
def error? : Refusal α → Option Error
  | full _ => none
  | failed e => some e

/-- The message of a refusal, then that of the failure it reports and of its causes. -/
def chain (r : Refusal α) : List String :=
  r.message :: (r.error?.map Error.chain).getD []

end Refusal

end BoundedQueue
