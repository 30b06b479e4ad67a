import BoundedQueue.Queue.Basic
import BoundedQueue.Schedule.World

/-!
# Calls on a queue

Every call on a queue is a sequence of atomic sections: it takes or returns a permit, or does its
work under a lock.  `Phase` lists the places between two sections, `Queue.begin` carries out the
first section of a call, and `Queue.resume` the section at a phase.

*Putting* an entry takes a free permit, shows the entry to the enqueue hook and pushes it under the
buffer lock, and returns the permit as a filled one.  *Taking* one goes the other way round.

*The end of input.*  A producer that deregisters lowers the count and puts a marker.  A consumer
that takes a marker absorbs it and goes on, unless it was the last slot and no producer is left.
In that case the input has ended, and the consumer puts the marker back for the next one, if a slot
is free.  It must not wait for a slot: when no producer is left, whoever holds a free permit is
about to put a marker as well.

A panic under a lock poisons it.  Permits that a call holds when it panics, or when the buffer lock
refuses service, are not returned.
-/

set_option autoImplicit false

namespace BoundedQueue

/-- A call on a queue. -/
inductive Call (α : Type) where
  /-- Puts an item, and waits while the queue is full. -/
  | enqueue (a : α)
  /-- Puts an item if a slot is free. -/
  | tryEnqueue (a : α)
  /-- Takes an item, and waits while the queue is empty. -/
  | dequeue
  | register
  | deregister
  | install (stage : Stage) (hook : Hook α)
  /-- Makes the queue as good as new.  No other call may be in progress. -/
  | clear

/-- Why an entry is put. -/
inductive Errand (α : Type) where
  /-- A caller hands in an item. -/
  | deliver (a : α)
  /-- A producer that deregistered leaves a marker. -/
  | farewell
  /-- A consumer at the end of input puts the marker back. -/
  | relay
  deriving DecidableEq, Repr

/-- The entry that is put. -/
def Errand.entry {α : Type} : Errand α → Entry α
  | deliver a => .item a
  | farewell | relay => .eof

/-- What a consumer has popped, and what it means. -/
inductive Find (α : Type) where
  | item (a : α)
  /-- A marker that does not end the input. -/
  | absorbed
  /-- The marker that ends the input. -/
  | concluded
  deriving DecidableEq, Repr

/-- Where a call stands between two sections. -/
inductive Phase (α : Type) where
  /-- Before a free permit is asked for. -/
  | askFree (errand : Errand α)
  /-- Waiting for a free permit, or woken and about to ask again. -/
  | awaitFree (errand : Errand α)
  /-- With a free permit, before the entry is pushed. -/
  | store (errand : Errand α)
  /-- With a free permit that is to be returned, because of `e`. -/
  | refundFree (errand : Errand α) (e : Error)
  /-- With the entry pushed, before the filled permit is given. -/
  | publish (errand : Errand α)
  /-- With the put over, and failed if there is an error. -/
  | settle (errand : Errand α) (e? : Option Error)
  /-- Before a filled permit is asked for. -/
  | askFilled
  /-- Waiting for a filled permit, or woken and about to ask again. -/
  | awaitFilled
  /-- With a filled permit, before an entry is popped. -/
  | fetch
  /-- With a filled permit that is to be returned, because of `e`. -/
  | refundFilled (e : Error)
  /-- With an entry popped, before the free permit is given. -/
  | vacate (find : Find α)
  /-- With an item in hand and nothing left to do. -/
  | handOver (a : α)
  /-- With nothing left to do after a failure. -/
  | fail (e : Error)
  /-- At the end of input, before the marker is put back. -/
  | passOn
  deriving DecidableEq, Repr

/-- How a call ends. -/
inductive Outcome (α : Type) where
  | done
  | item (a : α)
  /-- There is no item, and none will come. -/
  | drained
  /-- No slot is free; the item is handed back. -/
  | full (a : α)
  | failed (e : Error)
  | panicked (text : String)
  deriving DecidableEq, Repr

/-- A queue after a section, and how the section ends. -/
abbrev Section (α : Type) : Type := Queue α × Move (Phase α) Side (Outcome α)

namespace Queue

variable {α : Type}

/-! ## Records and refusals -/

/-- Writes a record while no lock is held, and goes on with `next` unless the logger panics. -/
def logged (q : Queue α) (r : Record) (next : Queue α → Section α) : Section α :=
  if q.log.springs r then (q.record r, .finish (.panicked Logbook.panicText))
  else next (q.record r)

/-- Writes a record under a lock, and goes on with `next` unless the logger panics. -/
def loggedUnder (q : Queue α) (lock : Lock) (r : Record) (next : Queue α → Section α) :
    Section α :=
  if q.log.springs r then ((q.record r).poison lock, .finish (.panicked Logbook.panicText))
  else next (q.record r)

/-- Goes on with `next` when a poisoned lock refuses service. -/
def refused (q : Queue α) (lock : Lock) (next : Error → Move (Phase α) Side (Outcome α)) :
    Section α :=
  q.logged lock.complaint fun q => (q, next lock.error)

/-- Goes on with `next` when a poisoned semaphore refuses service. -/
def refusedBy (q : Queue α) (s : Semaphore) (next : Queue α → Error → Section α) : Section α :=
  q.logged s.complaint fun q => next q s.error

/-- Returns a permit and wakes a waiter, then goes on at `next`, or at `otherwise` if the semaphore
is poisoned. -/
def release (q : Queue α) (side : Side) (next : Phase α) (otherwise : Error → Phase α) :
    Section α :=
  match (q.semaphore side).give with
  | .given after => (q.setSemaphore side after, .signal side next)
  | .overflow after => (q.setSemaphore side after, .finish (.panicked Semaphore.overflowText))
  | .poisoned => q.refusedBy (q.semaphore side) fun q e => (q, .go (otherwise e))

/-! ## Putting an entry -/

/-- Takes a free permit, or waits for one. -/
def takeFree (q : Queue α) (errand : Errand α) : Section α :=
  match q.free.take with
  | .granted rest => ({ q with free := rest }, .go (.store errand))
  | .empty => (q, .wait .free (.awaitFree errand))
  | .poisoned =>
    q.refusedBy q.free fun q e =>
      q.logged (.freeWaitFailed e) fun q => (q, .go (.settle errand (some e)))

/-- Takes a free permit for an item, or hands the item back. -/
def tryFree (q : Queue α) (a : α) : Section α :=
  match q.free.take with
  | .granted rest => ({ q with free := rest }, .go (.store (.deliver a)))
  | .empty => (q, .finish (.full a))
  | .poisoned => q.refusedBy q.free fun q e => (q, .finish (.failed e))

/-- Under the buffer lock: shows the entry to the enqueue hook and pushes it. -/
def store (q : Queue α) (errand : Errand α) : Section α :=
  if q.bufferPoisoned then q.refused .buffer fun e => .go (.settle errand (some e))
  else
    match q.consult .enqueue errand.entry with
    | (.panic text, q) => (q.poison .buffer, .finish (.panicked text))
    | (.reject cause, q) =>
      q.logged (.enqueueHookFailed cause) fun q =>
        (q, .go (.refundFree errand (.hook .enqueue cause)))
    | (.accept, q) =>
      match q.ring.push? errand.entry with
      | some ring => ({ q with ring := ring }.note (.pushed errand.entry), .go (.publish errand))
      | none => q.logged .ringFull fun q => (q, .go (.refundFree errand .ringFull))

/-- Ends a put.  A marker that a producer could not leave is logged. -/
def settle (q : Queue α) (errand : Errand α) (e? : Option Error) : Section α :=
  match errand, e? with
  | .relay, none => (q, .finish .drained)
  | _, none => (q, .finish .done)
  | .farewell, some e => q.logged (.markerFailed e) fun q => (q, .finish (.failed e))
  | _, some e => (q, .finish (.failed e))

/-! ## Taking an entry -/

/-- Takes a filled permit, or waits for one. -/
def takeFilled (q : Queue α) : Section α :=
  match q.filled.take with
  | .granted rest => ({ q with filled := rest }, .go .fetch)
  | .empty => (q, .wait .filled .awaitFilled)
  | .poisoned =>
    q.refusedBy q.filled fun q e =>
      q.logged (.filledWaitFailed e) fun q => (q, .finish (.failed e))

/-- Still under the buffer lock, decides what an entry means that was just popped.  Whether the
ring is empty and whether producers are left has to be read in the section of the pop, or two
consumers could both miss the last marker. -/
def weigh (q : Queue α) (entry : Entry α) : Section α :=
  match entry with
  | .item a => (q, .go (.vacate (.item a)))
  | .eof =>
    if !q.ring.isEmpty then (q.note .absorbed, .go (.vacate .absorbed))
    else if q.producersPoisoned then
      q.loggedUnder .buffer Lock.producers.complaint fun q =>
        (q, .finish (.failed Lock.producers.error))
    else if q.producers = 0 then (q.note .concluded, .go (.vacate .concluded))
    else (q.note .absorbed, .go (.vacate .absorbed))

/-- Under the buffer lock: shows the head of the ring to the dequeue hook and pops it. -/
def fetch (q : Queue α) : Section α :=
  if q.bufferPoisoned then q.refused .buffer fun e => .finish (.failed e)
  else
    match q.ring.peek? with
    | none => q.logged (.headRefused .ringEmpty) fun q => (q, .finish (.failed .ringEmpty))
    | some head =>
      match q.consult .dequeue head with
      | (.panic text, q) => (q.poison .buffer, .finish (.panicked text))
      | (.reject cause, q) =>
        q.logged (.headRefused (.hook .dequeue cause)) fun q =>
          (q, .go (.refundFilled (.hook .dequeue cause)))
      | (.accept, q) =>
        match q.ring.pop? with
        | none => (q, .finish (.failed .ringEmpty))
        | some (entry, ring) => ({ q with ring := ring }.note (.popped entry)).weigh entry

/-- Where a consumer goes on once it has given its slot away. -/
def afterVacating : Find α → Phase α
  | .item a => .handOver a
  | .absorbed => .askFilled
  | .concluded => .passOn

/-- Takes a free permit for the marker that ended the input, or leaves it out. -/
def passOn (q : Queue α) : Section α :=
  match q.free.take with
  | .granted rest =>
    { q with free := rest }.logged .markerPassedOn fun q => (q, .go (.store .relay))
  | .empty => (q.note .leftOut).logged .markerLeftOut fun q => (q, .finish .drained)
  | .poisoned => q.refusedBy q.free fun q e => (q, .finish (.failed e))

/-! ## Producers, hooks, and starting afresh -/

/-- Under the producers lock: counts one more producer. -/
def raise (q : Queue α) : Section α :=
  if q.producersPoisoned then q.refused .producers fun e => .finish (.failed e)
  else
    ({ q with producers := q.producers + 1 }.note .raised).loggedUnder .producers
      (.registered (q.producers + 1)) fun q => (q, .finish .done)

/-- Under the producers lock: counts one producer less, which is then to leave a marker. -/
def lower (q : Queue α) : Section α :=
  if q.producersPoisoned then q.refused .producers fun e => .finish (.failed e)
  else
    match q.producers with
    | 0 =>
      q.loggedUnder .producers .unmatchedDeregister fun q => (q, .finish (.failed .noProducers))
    | n + 1 =>
      ({ q with producers := n }.note .lowered).loggedUnder .producers (.deregistered n) fun q =>
        (q, .go (.askFree .farewell))

/-- Under the buffer lock: installs a hook. -/
def install (q : Queue α) (stage : Stage) (hook : Hook α) : Section α :=
  if q.bufferPoisoned then q.refused .buffer fun e => .finish (.failed e)
  else (q.setHook stage hook, .finish .done)

/-- Sets the number of permits of a semaphore and goes on with `next`. -/
def resetThen (q : Queue α) (side : Side) (permits : Nat) (next : Queue α → Section α) :
    Section α :=
  match (q.semaphore side).reset? permits with
  | some after => next (q.setSemaphore side after)
  | none => q.refusedBy (q.semaphore side) fun q e => (q, .finish (.failed e))

/-- Empties the ring, forgets the producers and frees every permit, in this order, up to the first
lock that refuses service.  The hooks stay. -/
def clear (q : Queue α) : Section α :=
  if q.bufferPoisoned then q.refused .buffer fun e => .finish (.failed e)
  else
    let q := { q with ring := q.ring.clear }.note .emptied
    if q.producersPoisoned then q.refused .producers fun e => .finish (.failed e)
    else
      { q with producers := 0 }.resetThen .free q.capacity fun q =>
        q.resetThen .filled 0 fun q => (q.note .renewed, .finish .done)

/-! ## Calls as a whole -/

/-- The first section of a call. -/
def begin (q : Queue α) : Call α → Section α
  | .enqueue a => q.takeFree (.deliver a)
  | .tryEnqueue a => q.tryFree a
  | .dequeue => q.takeFilled
  | .register => q.raise
  | .deregister => q.lower
  | .install stage hook => q.install stage hook
  | .clear => q.clear

/-- The section at a phase. -/
def resume (q : Queue α) : Phase α → Section α
  | .askFree errand | .awaitFree errand => q.takeFree errand
  | .store errand => q.store errand
  | .refundFree errand e =>
    q.release .free (.settle errand (some e)) fun e' => .settle errand (some e')
  | .publish errand => q.release .filled (.settle errand none) fun e => .settle errand (some e)
  | .settle errand e? => q.settle errand e?
  | .askFilled | .awaitFilled => q.takeFilled
  | .fetch => q.fetch
  | .refundFilled e => q.release .filled (.fail e) .fail
  | .vacate find => q.release .free (afterVacating find) .fail
  | .handOver a => (q, .finish (.item a))
  | .fail e => (q, .finish (.failed e))
  | .passOn => q.passOn

/-! ## Bounds on the work -/

/-- The work that a filled slot may cost its consumer. -/
def slotWork : Nat := 5

/-- A bound on the sections that are left at a phase, on top of `slotWork` for every filled slot.
Waking another task counts as work, and so does the return of a consumer that takes one entry after
another. -/
def phaseWork : Phase α → Nat
  | .askFree _ | .awaitFree _ => 10
  | .store _ => 9
  | .refundFree _ _ => 3
  | .publish _ => 3
  | .settle _ _ => 1
  | .askFilled | .awaitFilled => 9
  | .fetch => 8
  | .refundFilled _ => 3
  | .vacate _ => 12
  | .handOver _ => 10
  | .fail _ => 1
  | .passOn => 10

/-- A bound on the sections of a call, on top of `slotWork` for every filled slot. -/
def callWork : Nat := 12

end Queue

end BoundedQueue
