import BoundedQueue.Error

/-!
# Log records

`Record` lists everything that a queue reports about itself.  A record has a `level` and a `text`;
`Record.line` joins the two.
-/

set_option autoImplicit false

namespace BoundedQueue

/-- How detailed a record is. -/
inductive Level where
  | warn
  | debug
  | trace
  deriving DecidableEq, Repr

namespace Level

/-- The word that opens a line of the log. -/
def tag : Level → String
  | warn => "WARN"
  | debug => "DEBUG"
  | trace => "TRACE"

/-- Levels in ascending order of detail. -/
def detail : Level → Nat
  | warn => 0
  | debug => 1
  | trace => 2

end Level

/-- What a queue reports about itself. -/
inductive Record where
  /-- A queue without slots is not made. -/
  | zeroCapacity
  /-- The buffer lock refused service. -/
  | bufferPoisoned
  /-- The producers lock refused service. -/
  | producersPoisoned
  /-- The lock of the named semaphore refused service. -/
  | semaphorePoisoned (name : String)
  | freeWaitFailed (e : Error)
  | filledWaitFailed (e : Error)
  | enqueueHookFailed (cause : Cause)
  /-- A push failed although a permit promised a free slot. -/
  | ringFull
  /-- The head of the ring could not be shown to the dequeue hook, or was rejected by it. -/
  | headRefused (e : Error)
  /-- A producer was to be deregistered while none was registered. -/
  | unmatchedDeregister
  /-- A producer was registered; `active` is the count from then on. -/
  | registered (active : Nat)
  /-- A producer was deregistered; `active` is the count from then on. -/
  | deregistered (active : Nat)
  /-- A deregistered producer could not leave its marker. -/
  | markerFailed (e : Error)
  /-- A dropped producer guard could not deregister. -/
  | dropFailed (e : Error)
  /-- A draining consumer puts its marker back. -/
  | markerPassedOn
  /-- A draining consumer found no free slot for its marker. -/
  | markerLeftOut
  deriving DecidableEq, Repr

namespace Record

/-- Failures are warnings, the end of input is news, and the producer count is detail. -/
def level : Record → Level
  | registered _ | deregistered _ => .trace
  | markerPassedOn | markerLeftOut => .debug
  | _ => .warn

/-- The text of a record, without its level. -/
def text : Record → String
  | zeroCapacity => "refusing to create a queue with zero capacity"
  | bufferPoisoned => "buffer lock poisoned"
  | producersPoisoned => "producer count lock poisoned"
  | semaphorePoisoned name => "semaphore " ++ name ++ " poisoned"
  | freeWaitFailed e => "failed to wait for a free slot: " ++ e.message
  | filledWaitFailed e => "failed to wait for a filled slot: " ++ e.message
  | enqueueHookFailed cause => "enqueue hook failed: " ++ cause.text
  | ringFull => "ring buffer full while holding a free slot permit"
  | headRefused e => e.message
  | unmatchedDeregister => "deregister_producer called with no registered producer"
  | registered active => "producer registered (" ++ toString active ++ " active)"
  | deregistered active => "producer deregistered (" ++ toString active ++ " active)"
  | markerFailed e => "failed to enqueue end-of-input marker: " ++ e.message
  | dropFailed e => "producer deregistration on drop failed: " ++ e.message
  | markerPassedOn => "queue drained; passing end-of-input on"
  | markerLeftOut => "queue drained; end-of-input already queued"

/-- A record as a line of the log. -/
def line (r : Record) : String := r.level.tag ++ " " ++ r.text

end Record

end BoundedQueue
