import BoundedQueue.Error
import BoundedQueue.Ring.Basic

/-!
# Scripts for a single ring

A script is a list of commands for one ring.  `Ring.replay` carries a script out and gives, for
every command, its answer and a reading of the ring afterwards.
-/

set_option autoImplicit false

namespace BoundedQueue

namespace Ring

/-- What a script can ask of a ring. -/
inductive Command (α : Type) where
  | push (a : α)
  | pop
  | peek
  | clear
  | capacity
  /-- Asks for the ring's outline in block form. -/
  | pretty
  /-- A command that could not be read. -/
  | unreadable

/-- What a command is answered. -/
inductive Answer (α : Type) where
  | done
  | value (a : α)
  /-- There is no value to show. -/
  | nothing
  | number (n : Nat)
  | text (s : String)
  /-- The value could not be stored and is handed back. -/
  | full (a : α)
  | empty
  | unreadable

/-- The message of an answer that refuses a command. -/
def Answer.message? {α : Type} : Answer α → Option String
  | .full _ => some "ring buffer is full"
  | .empty => some "ring buffer is empty"
  | _ => none

/-- An answer, with what the ring shows after it. -/
structure Reading (α : Type) where
  answer : Answer α
  len : Nat
  isEmpty : Bool
  isFull : Bool
  /-- The ring's outline on one line. -/
  outline : String

variable {α : Type}

/-- Carries out one command. -/
def obey (r : Ring α) : Command α → Ring α × Answer α
  | .push a =>
    match r.push? a with
    | some r' => (r', .done)
    | none => (r, .full a)
  | .pop =>
    match r.pop? with
    | some (a, r') => (r', .value a)
    | none => (r, .empty)
  | .peek =>
    match r.peek? with
    | some a => (r, .value a)
    | none => (r, .nothing)
  | .clear => (r.clear, .done)
  | .capacity => (r, .number r.capacity)
  | .pretty => (r, .text r.outline.block)
  | .unreadable => (r, .unreadable)

/-- An answer together with what `r` shows. -/
def reading (r : Ring α) (answer : Answer α) : Reading α where
  answer := answer
  len := r.len
  isEmpty := r.isEmpty
  isFull := r.isFull
  outline := r.outline.inline

/-- Carries out a list of commands, with a reading after each. -/
def obeyAll (r : Ring α) : List (Command α) → List (Reading α)
  | [] => []
  | c :: cs =>
    let (r', answer) := r.obey c
    r'.reading answer :: r'.obeyAll cs

/-- Carries out a script on a new ring.  A ring needs at least one slot. -/
def replay (capacity : Nat) (script : List (Command α)) : Except Error (List (Reading α)) :=
  if capacity = 0 then .error .zeroCapacity else .ok ((empty capacity).obeyAll script)

end Ring

end BoundedQueue
