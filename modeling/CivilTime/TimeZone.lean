import CivilTime.Tail
import CivilTime.Transition

/-!
A compiled time zone: transitions in order, possibly continued by a tail. Each query comes in two
forms. The plain form is total; the form with a question mark refuses to answer from a tail without
months.
-/

namespace CivilTime.Bisection

/-- Narrows the positions from `low` to `high` down to one, keeping the lower half where
`condition` holds in the middle and the upper half where it does not. If the condition holds from
some position on, that position is found. -/
def search (condition : Nat → Bool) (low high : Nat) : Nat :=
  if low < high then
    let middle := (low + high) / 2
    if condition middle then search condition low middle
    else search condition (middle + 1) high
  else low
  termination_by high - low

end CivilTime.Bisection

namespace CivilTime

structure TimeZone where
  id : String
  transitions : Array Transition
  tail : Option Tail := none
  deriving DecidableEq, Repr

namespace TimeZone

/-- The number of transitions at or before an instant, found by bisection. -/
def countThrough (zone : TimeZone) (instant : Int) : Nat :=
  Bisection.search
    (fun i => match zone.transitions[i]? with
      | some transition => instant < transition.millis
      | none => true)
    0 zone.transitions.size

def countBefore (zone : TimeZone) (instant : Int) : Nat :=
  Bisection.search
    (fun i => match zone.transitions[i]? with
      | some transition => instant ≤ transition.millis
      | none => true)
    0 zone.transitions.size

def transitionAt? (zone : TimeZone) (instant : Int) : Option Transition :=
  match zone.countThrough instant with
  | 0 => none
  | n + 1 => zone.transitions[n]?

/-- The tail, if it answers at the given instant: after the last transition. -/
def tailAt? (zone : TimeZone) (instant : Int) : Option Tail :=
  match zone.transitions.back? with
  | none => zone.tail
  | some last => if last.millis < instant then zone.tail else none

def offsetAt (zone : TimeZone) (instant : Int) : Int :=
  match zone.tailAt? instant with
  | some tail => tail.offsetAt instant
  | none => ((zone.transitionAt? instant).map Transition.wallOffset).getD 0

def standardOffsetAt (zone : TimeZone) (instant : Int) : Int :=
  match zone.tailAt? instant with
  | some tail => tail.standardOffset
  | none => ((zone.transitionAt? instant).map Transition.standardOffset).getD 0

def nameAt (zone : TimeZone) (instant : Int) : String :=
  match zone.tailAt? instant with
  | some tail => tail.nameAt instant
  | none => ((zone.transitionAt? instant).map Transition.name).getD "UTC"

/-- Where the transition after an instant is to be found: at a known instant, or as the first
one of the tail after an instant. -/
inductive NextPlace where
  | known (millis : Int)
  | inTail (tail : Tail) (after : Int)

def nextPlace (zone : TimeZone) (instant : Int) : NextPlace :=
  match zone.transitions[zone.countThrough instant]? with
  | some transition => .known transition.millis
  | none =>
    match zone.tail with
    | none => .known instant
    | some tail =>
      match zone.transitions.back? with
      | some last => .inTail tail (max instant last.millis)
      | none => .inTail tail instant

/-- The first transition after an instant, or the instant itself if there is none. -/
def nextTransition (zone : TimeZone) (instant : Int) : Int :=
  match zone.nextPlace instant with
  | .known millis => millis
  | .inTail tail after => tail.nextTransition after

/-- One millisecond before the last entry of the transitions, or the instant itself if that entry
is the initial state. -/
def beforeLast (zone : TimeZone) (instant : Int) : Int :=
  match zone.transitions.back? with
  | some last => if Instant.earliest < last.millis then last.millis - 1 else instant
  | none => instant

/-- Where the latest transition at or before an instant is to be found: one millisecond after a
known instant, or in the tail if that has one before the instant. -/
inductive PreviousPlace where
  | known (millis : Int)
  | inTail (tail : Tail)

def previousPlace (zone : TimeZone) (instant : Int) : PreviousPlace :=
  let index := zone.countBefore instant
  match zone.transitions[index]? with
  | some transition =>
    if transition.millis = instant then
      .known (if Instant.earliest < instant then instant - 1 else instant)
    else
      match index with
      | 0 => .known instant
      | n + 1 =>
        match zone.transitions[n]? with
        | some earlier =>
          .known (if Instant.earliest < earlier.millis then earlier.millis - 1 else instant)
        | none => .known instant
  | none =>
    match zone.tail with
    | some tail => .inTail tail
    | none => .known (zone.beforeLast instant)

/-- One millisecond before the latest transition at or before an instant, or the instant itself if
there is none. The initial state is no transition. -/
def previousTransition (zone : TimeZone) (instant : Int) : Int :=
  match zone.previousPlace instant with
  | .known millis => millis
  | .inTail tail =>
    let previous := tail.previousTransition instant
    if previous < instant then previous else zone.beforeLast instant

def offsetAt? (zone : TimeZone) (instant : Int) : Option Int :=
  match zone.tailAt? instant with
  | some tail => tail.guarded (zone.offsetAt instant)
  | none => some (zone.offsetAt instant)

def nameAt? (zone : TimeZone) (instant : Int) : Option String :=
  match zone.tailAt? instant with
  | some tail => tail.guarded (zone.nameAt instant)
  | none => some (zone.nameAt instant)

def nextTransition? (zone : TimeZone) (instant : Int) : Option Int :=
  match zone.nextPlace instant with
  | .known millis => some millis
  | .inTail tail _ => tail.guarded (zone.nextTransition instant)

def previousTransition? (zone : TimeZone) (instant : Int) : Option Int :=
  match zone.previousPlace instant with
  | .known millis => some millis
  | .inTail tail => tail.guarded (zone.previousTransition instant)

end TimeZone

end CivilTime
