import BoundedQueue.Log.Record

/-!
# The logbook

A logbook keeps the records up to a level of detail.  It can be set with a trap: the next record
that is kept and whose text opens as the trap says springs it, which means that the logger panics
right after writing that record.  A trap springs once.

* `Logbook.springs` says whether a record would spring the trap.
* `Logbook.write` keeps a record, and clears the trap if it springs.
-/

set_option autoImplicit false

namespace BoundedQueue

/-- The records kept so far, and what is kept from now on. -/
structure Logbook where
  /-- The most detailed level that is kept; with `none`, nothing is. -/
  detail : Option Level
  /-- How the text of a record opens that makes the logger panic. -/
  trap : Option String
  /-- The records that were kept, newest first. -/
  records : List Record

namespace Logbook

/-- A logbook without records or trap. -/
def blank (detail : Option Level) : Logbook := ⟨detail, none, []⟩

/-- Whether records of a level are kept. -/
def keeps (b : Logbook) (level : Level) : Bool :=
  match b.detail with
  | none => false
  | some most => level.detail ≤ most.detail

/-- Whether writing `r` makes the logger panic. -/
def springs (b : Logbook) (r : Record) : Bool :=
  match b.trap with
  | none => false
  | some opening => b.keeps r.level && opening.toList.isPrefixOf r.text.toList

/-- Writes `r` down if its level is kept. -/
def write (b : Logbook) (r : Record) : Logbook :=
  { b with
    trap := if b.springs r then none else b.trap
    records := if b.keeps r.level then r :: b.records else b.records }

/-- Sets a trap, in place of an earlier one. -/
def setTrap (b : Logbook) (opening : String) : Logbook := { b with trap := some opening }

/-- What a panicking logger says. -/
def panicText : String := "logger panicked"

end Logbook

end BoundedQueue
