import CivilTime.YearPoint

/-!
A tail continues a timeline forever by two yearly recurrences in turn. Each is located with the
saving of the other, which is the one in effect just before it.
-/

namespace CivilTime

structure Tail where
  standardOffset : Int
  starting : Recurrence
  ending : Recurrence
  deriving DecidableEq, Repr

namespace Tail

def nextStart (tail : Tail) (instant : Int) : Int :=
  tail.starting.point.next instant tail.standardOffset tail.ending.save

def nextEnd (tail : Tail) (instant : Int) : Int :=
  tail.ending.point.next instant tail.standardOffset tail.starting.save

/-- The recurrence in effect at an instant: the one that comes up again later. -/
def current (tail : Tail) (instant : Int) : Recurrence :=
  if tail.nextEnd instant < tail.nextStart instant then tail.starting else tail.ending

def offsetAt (tail : Tail) (instant : Int) : Int :=
  tail.standardOffset + (tail.current instant).save

def nameAt (tail : Tail) (instant : Int) : String :=
  (tail.current instant).name

def nextTransition (tail : Tail) (instant : Int) : Int :=
  min (tail.nextStart instant) (tail.nextEnd instant)

/-- One millisecond before the latest transition at or before an instant. -/
def previousTransition (tail : Tail) (instant : Int) : Int :=
  max (tail.starting.point.previous (instant + 1) tail.standardOffset tail.ending.save)
    (tail.ending.point.previous (instant + 1) tail.standardOffset tail.starting.save) - 1

def hasMonths (tail : Tail) : Bool :=
  tail.starting.point.hasMonth && tail.ending.point.hasMonth

/-- A value that depends on the recurrences, refused if one of them has no month. -/
def guarded {α : Type} (tail : Tail) (value : α) : Option α :=
  if tail.hasMonths then some value else none

def current? (tail : Tail) (instant : Int) : Option Recurrence :=
  tail.guarded (tail.current instant)

def offsetAt? (tail : Tail) (instant : Int) : Option Int :=
  tail.guarded (tail.offsetAt instant)

def nameAt? (tail : Tail) (instant : Int) : Option String :=
  tail.guarded (tail.nameAt instant)

def nextTransition? (tail : Tail) (instant : Int) : Option Int :=
  tail.guarded (tail.nextTransition instant)

def previousTransition? (tail : Tail) (instant : Int) : Option Int :=
  tail.guarded (tail.previousTransition instant)

end Tail

end CivilTime
