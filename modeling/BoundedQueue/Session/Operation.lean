import BoundedQueue.Queue.Call

/-!
# What tasks ask of a queue

An `Operation` is what a task is told to do with the queue, with an iteration over it, or with a
handle.  An `Answer` is what comes of it.
-/

set_option autoImplicit false

namespace BoundedQueue

/-- What a task can be told to do. -/
inductive Operation (α : Type) where
  | enqueue (a : α)
  | tryEnqueue (a : α)
  | dequeue
  /-- Iterates over items until there are `n`. -/
  | take (n : Nat)
  /-- Iterates over items to the end. -/
  | collect
  | register
  | deregister
  | install (stage : Stage) (hook : Hook α)
  | capacity
  | isEmpty
  /-- Asks for the queue's outline on one line. -/
  | debug
  /-- Asks for the queue's outline in block form. -/
  | pretty
  /-- Clears the queue, which nobody else may be using. -/
  | clear
  /-- Makes a producer guard. -/
  | producer (handle : String)
  /-- Makes an iterator. -/
  | iter (handle : String)
  /-- Enqueues an item through a guard. -/
  | send (handle : String) (a : α)
  /-- Ends a guard, and reports a failure. -/
  | finish (handle : String)
  /-- Asks for the outlines of a guard. -/
  | describe (handle : String)
  /-- Asks an iterator for an item. -/
  | next (handle : String)
  /-- Does away with a handle; a guard is ended, and a failure is only logged. -/
  | drop (handle : String)
  /-- Makes the logger panic at a record that opens as given. -/
  | trap (opening : String)

/-- The name of an operation. -/
def Operation.name {α : Type} : Operation α → String
  | enqueue _ => "enqueue"
  | tryEnqueue _ => "try_enqueue"
  | dequeue => "dequeue"
  | take _ => "take"
  | collect => "collect"
  | register => "register"
  | deregister => "deregister"
  | install .enqueue _ => "set_on_enqueue"
  | install .dequeue _ => "set_on_dequeue"
  | capacity => "capacity"
  | isEmpty => "is_empty"
  | debug => "debug"
  | pretty => "pretty"
  | clear => "clear"
  | producer _ => "producer"
  | iter _ => "iter"
  | send _ _ => "send"
  | finish _ => "finish"
  | describe _ => "show"
  | next _ => "next"
  | drop _ => "drop"
  | trap _ => "log_panic"

/-- What comes of an operation. -/
inductive Answer (α : Type) where
  | done
  | item (a : α)
  /-- There is no item, and none will come. -/
  | drained
  /-- The items of an iteration; a failure ended it if there is one. -/
  | listed (items : List α) (failure? : Option Error)
  /-- What an iterator gives next; at its end, nothing. -/
  | next (result? : Option (Except Error α))
  | number (n : Nat)
  | flag (b : Bool)
  | text (s : String)
  | texts (ss : List String)
  | failed (e : Error)
  /-- An attempt to enqueue without waiting came to nothing. -/
  | refused (r : Refusal α)
  | panicked (text : String)
  /-- The queue is in use. -/
  | inUse
  /-- The name of the handle is taken, unknown, in use, or of the other kind. -/
  | noHandle

end BoundedQueue
