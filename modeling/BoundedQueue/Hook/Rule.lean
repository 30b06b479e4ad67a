import BoundedQueue.Hook.Basic

/-!
# Hooks made of rules

A rule is a condition with a verdict.  `Hook.ofRules` makes a hook that follows the first rule whose
condition holds, and accepts an entry to which none applies.

Two of the conditions look into items.  They need a type of items that is a `Payload`: one whose
values can be compared and some of which are integers.
-/

set_option autoImplicit false

namespace BoundedQueue

/-- Types of items that rules can look into. -/
class Payload (α : Type) extends BEq α where
  /-- The integer that an item is, if it is one. -/
  toInt? : α → Option Int

/-- When a rule applies. -/
inductive Condition (α : Type) where
  | any
  | eof
  | item
  /-- The hook is called for the `n`-th time. -/
  | nth (n : Nat)
  /-- The number of the call is a multiple of `n`. -/
  | every (n : Nat)
  /-- The entry is an item equal to `a`. -/
  | equals (a : α)
  /-- The entry is an integer item of a signed 64-bit word, and below `bound`. -/
  | below (bound : Int)

/-- A condition and what follows from it. -/
structure Rule (α : Type) where
  condition : Condition α
  verdict : Verdict

/-- The integers of a signed 64-bit word. -/
def inSignedWord (z : Int) : Bool := -(Int.pow 2 63) ≤ z && z < Int.pow 2 63

namespace Condition

variable {α : Type} [Payload α]

/-- Whether a condition holds at call number `call`, for an entry. -/
def holds (call : Nat) : Condition α → Entry α → Bool
  | any, _ => true
  | eof, .eof => true
  | eof, .item _ => false
  | item, .item _ => true
  | item, .eof => false
  | nth n, _ => call == n
  | every n, _ => n ∣ call
  | equals a, .item b => b == a
  | equals _, .eof => false
  | below bound, .item b => (Payload.toInt? b).any fun z => inSignedWord z && z < bound
  | below _, .eof => false

end Condition

variable {α : Type} [Payload α]

/-- The verdict of the first rule that applies at call number `call`. -/
def Rule.decide (rules : List (Rule α)) (call : Nat) (e : Entry α) : Verdict :=
  match rules.find? fun r => r.condition.holds call e with
  | some r => r.verdict
  | none => .accept

/-- The hook that follows a list of rules.  Its calls are counted from 1. -/
def Hook.ofRules (rules : List (Rule α)) : Hook α :=
  .ofVerdict fun shown e => Rule.decide rules (shown.length + 1) e

end BoundedQueue
