import BoundedQueue.Session.Case

/-!
# A queue for a single task

When a single task makes one call after the other, all that matters is which entries are in the
queue, how many producers there are, and what the hooks decide.  `Reference` is such a queue: a list
and a number, without a ring, permits, locks or sections.

* `Reference.put` puts an entry at the end of the list, unless there is no room or the hook rejects
  the entry.  `Reference.take` takes the first entry off the list, goes on to the next one where it
  is a marker that is absorbed, and puts the last marker back.
* `Reference.call` is a call as a whole, which is answered, or waits and then waits for ever.
* `Reference.reports` is what is seen of a list of calls: the answers, what the hooks were shown,
  and after every call the number of entries and of producers.

The reference is there to be read: it is what somebody has in mind who uses the queue from a single
task.  What is proved about it here is only how puts and takings come out, one lemma for each way
(`put_of_accept`, `take_of_absorbed` and so on), and which call leaves what alone.
-/

set_option autoImplicit false

namespace BoundedQueue

variable {α : Type}

/-- Why an entry is rejected, if it is. -/
def Verdict.cause? : Verdict → Option Cause
  | reject cause => some cause
  | _ => none

/-- Whatever it is shown, the hook accepts or rejects it. -/
def Hook.NeverPanics (h : Hook α) : Prop := ∀ seen entry text, h.verdict seen entry ≠ .panic text

/-- A list of entries and a number of producers, with the hooks that are shown the entries. -/
structure Reference (α : Type) where
  slots : List (Entry α)
  producers : Nat
  onEnqueue : Option (Hook α)
  onDequeue : Option (Hook α)
  /-- What the hooks were shown, newest first. -/
  shown : List (Stage × Entry α)

namespace Reference

/-- No entries and no producers. -/
def fresh (onEnqueue onDequeue : Option (Hook α)) : Reference α := ⟨[], 0, onEnqueue, onDequeue, []⟩

/-- The hook at a stage. -/
def hook? (s : Reference α) : Stage → Option (Hook α)
  | .enqueue => s.onEnqueue
  | .dequeue => s.onDequeue

/-- Installs a hook in place of the one at a stage. -/
def setHook (s : Reference α) (stage : Stage) (hook : Hook α) : Reference α :=
  match stage with
  | .enqueue => { s with onEnqueue := some hook }
  | .dequeue => { s with onDequeue := some hook }

/-- Shows an entry to the hook at a stage: why it is rejected, if it is. -/
def consult (s : Reference α) (stage : Stage) (entry : Entry α) : Option Cause × Reference α :=
  match s.hook? stage with
  | none => (none, s)
  | some hook =>
    ((hook.judge entry).cause?,
      { s.setHook stage (hook.remember entry) with shown := (stage, entry) :: s.shown })

/-- Puts an entry: nothing comes of it while there is no room, else it goes in or is rejected. -/
def put (capacity : Nat) (s : Reference α) (entry : Entry α) :
    Reference α × Option (Except Error Unit) :=
  if s.slots.length = capacity then (s, none)
  else
    match s.consult .enqueue entry with
    | (some cause, s) => (s, some (.error (.hook .enqueue cause)))
    | (none, s) => ({ s with slots := s.slots ++ [entry] }, some (.ok ()))

/-- The answer of a call that puts an entry. -/
def putAnswer : Except Error Unit → Answer α
  | .ok () => .done
  | .error e => .failed e

/-- The answer of an attempt, where a failure is a refusal. -/
def attemptAnswer : Except Error Unit → Answer α
  | .ok () => .done
  | .error e => .refused (.failed e)

/-- The answer of a taking that puts the last marker back. -/
def relayAnswer : Except Error Unit → Answer α
  | .ok () => .drained
  | .error e => .failed e

/-- Takes an item, where `slots` are the entries.  The last marker is put back when no producer is
left; other markers are absorbed. -/
def take (capacity : Nat) (s : Reference α) : List (Entry α) → Reference α × Option (Answer α)
  | [] => (s, none)
  | entry :: rest =>
    match s.consult .dequeue entry with
    | (some cause, s) => (s, some (.failed (.hook .dequeue cause)))
    | (none, s) =>
      let s := { s with slots := rest }
      match entry with
      | .item a => (s, some (.item a))
      | .eof =>
        if rest.isEmpty && s.producers == 0 then
          let (s, result?) := s.put capacity .eof
          (s, result?.map relayAnswer)
        else take capacity s rest

/-- Makes a call.  Without an answer, it waits. -/
def call (capacity : Nat) (s : Reference α) : Call α → Reference α × Option (Answer α)
  | .enqueue a =>
    let (s, result?) := s.put capacity (.item a)
    (s, result?.map putAnswer)
  | .tryEnqueue a =>
    if s.slots.length = capacity then (s, some (.refused (.full a)))
    else
      let (s, result?) := s.put capacity (.item a)
      (s, result?.map attemptAnswer)
  | .dequeue => s.take capacity s.slots
  | .register => ({ s with producers := s.producers + 1 }, some .done)
  | .deregister =>
    match s.producers with
    | 0 => (s, some (.failed .noProducers))
    | n + 1 =>
      let (s, result?) := { s with producers := n }.put capacity .eof
      (s, result?.map putAnswer)
  | .install stage hook => (s.setHook stage hook, some .done)
  | .clear => ({ s with slots := [], producers := 0 }, some .done)

end Reference

/-- The operation that consists of a call. -/
def Call.operation : Call α → Operation α
  | enqueue a => .enqueue a
  | tryEnqueue a => .tryEnqueue a
  | dequeue => .dequeue
  | register => .register
  | deregister => .deregister
  | install stage hook => .install stage hook
  | clear => .clear

namespace Reference

/-- What is seen after task `t` was told to do something, but for the log. -/
def report (s : Reference α) (t : Int) (what : List (Occurrence (Operation α) (Answer α)))
    (waits : Bool) : Report α where
  round := { events := what.map (Event.mk t), blocked := if waits then [t] else [] }
  log := []
  shown := s.shown.reverse
  len := s.slots.length
  producers := s.producers

/-- What is seen of task `t` that is told to make one call after the other.  Once a call waits, the
task is told in vain. -/
def reports (capacity : Nat) (t : Int) : Reference α → List (Call α) → List (Report α)
  | _, [] => []
  | s, c :: calls =>
    match { s with shown := [] }.call capacity c with
    | (s, some a) => s.report t [.completed c.operation a] false :: reports capacity t s calls
    | (s, none) =>
      s.report t [] true :: calls.map fun _ => { s with shown := [] }.report t [.busy] true

/-! ## What calls leave alone -/

variable {capacity : Nat} {s : Reference α} {stage : Stage} {entry : Entry α}

@[simp] theorem slots_setHook (hook : Hook α) : (s.setHook stage hook).slots = s.slots := by
  cases stage <;> rfl

@[simp] theorem producers_setHook (hook : Hook α) :
    (s.setHook stage hook).producers = s.producers := by
  cases stage <;> rfl

@[simp] theorem shown_setHook (hook : Hook α) : (s.setHook stage hook).shown = s.shown := by
  cases stage <;> rfl

@[simp] theorem slots_consult : (s.consult stage entry).2.slots = s.slots := by
  unfold consult
  split <;> simp

@[simp] theorem producers_consult : (s.consult stage entry).2.producers = s.producers := by
  unfold consult
  split <;> simp

/-! ## How a put and a taking come out -/

theorem put_of_full (h : s.slots.length = capacity) (entry : Entry α) :
    s.put capacity entry = (s, none) := by
  rw [put, if_pos h]

theorem put_of_reject {cause : Cause} (h : s.slots.length ≠ capacity)
    (hc : (s.consult .enqueue entry).1 = some cause) : s.put capacity entry =
      ((s.consult .enqueue entry).2, some (.error (.hook .enqueue cause))) := by
  rw [put, if_neg h]
  generalize s.consult .enqueue entry = shown at *
  obtain ⟨cause?, s₁⟩ := shown
  obtain rfl : cause? = some cause := hc
  rfl

theorem put_of_accept (h : s.slots.length ≠ capacity)
    (hc : (s.consult .enqueue entry).1 = none) : s.put capacity entry =
      ({ (s.consult .enqueue entry).2 with slots := s.slots ++ [entry] }, some (.ok ())) := by
  rw [put, if_neg h, ← @slots_consult α s .enqueue entry]
  generalize s.consult .enqueue entry = shown at *
  obtain ⟨cause?, s₁⟩ := shown
  obtain rfl : cause? = none := hc
  rfl

theorem take_of_reject {cause : Cause} (hc : (s.consult .dequeue entry).1 = some cause)
    (rest : List (Entry α)) : s.take capacity (entry :: rest) =
      ((s.consult .dequeue entry).2, some (.failed (.hook .dequeue cause))) := by
  rw [take]
  generalize s.consult .dequeue entry = shown at *
  obtain ⟨cause?, s₁⟩ := shown
  obtain rfl : cause? = some cause := hc
  rfl

theorem take_of_item {a : α} (hc : (s.consult .dequeue (.item a)).1 = none)
    (rest : List (Entry α)) : s.take capacity (.item a :: rest) =
      ({ (s.consult .dequeue (.item a)).2 with slots := rest }, some (.item a)) := by
  rw [take]
  generalize s.consult .dequeue (.item a) = shown at *
  obtain ⟨cause?, s₁⟩ := shown
  obtain rfl : cause? = none := hc
  rfl

/-- A marker is absorbed that is not the last slot, or while producers are left. -/
theorem take_of_absorbed {rest : List (Entry α)} (hc : (s.consult .dequeue .eof).1 = none)
    (hleft : rest ≠ [] ∨ s.producers ≠ 0) : s.take capacity (.eof :: rest) =
      { (s.consult .dequeue .eof).2 with slots := rest }.take capacity rest := by
  rw [← @producers_consult α s .dequeue .eof] at hleft
  rw [take]
  generalize s.consult .dequeue .eof = shown at *
  obtain ⟨cause?, s₁⟩ := shown
  obtain rfl : cause? = none := hc
  refine if_neg ?_
  simpa [Classical.or_iff_not_imp_left] using hleft

theorem take_of_concluded (hc : (s.consult .dequeue .eof).1 = none) (h0 : s.producers = 0) :
    s.take capacity [.eof] =
      let put := { (s.consult .dequeue .eof).2 with slots := [] }.put capacity .eof
      (put.1, put.2.map relayAnswer) := by
  rw [← @producers_consult α s .dequeue .eof] at h0
  rw [take]
  generalize s.consult .dequeue .eof = shown at *
  obtain ⟨cause?, s₁⟩ := shown
  obtain rfl : cause? = none := hc
  exact if_pos (by simpa using h0)

end Reference

end BoundedQueue
