import CivilTime.YearPoint

/-!
Transitions and their history. A history is kept newest first; appending to it leaves out what
changes nothing and takes back what would be shown at the same local time.
-/

namespace CivilTime

/-- The state of a zone from the instant `millis` on. -/
structure Transition where
  millis : Int
  name : String
  wallOffset : Int
  standardOffset : Int
  deriving DecidableEq, Repr

namespace Transition

def save (transition : Transition) : Int :=
  transition.wallOffset - transition.standardOffset

def sameState (first second : Transition) : Bool :=
  first.wallOffset == second.wallOffset && first.standardOffset == second.standardOffset &&
    first.name == second.name

/-- The transition is later than `last` and changes its state; any transition may come first. -/
def follows (transition : Transition) : Option Transition → Bool
  | none => true
  | some last => last.millis < transition.millis && !transition.sameState last

def movedTo (transition : Transition) (millis : Int) : Transition :=
  { transition with millis }

end Transition

/-- Transitions, newest first. -/
abbrev History := List Transition

namespace History

/-- Puts a transition on a history and tells whether it now is the newest entry. A transition that
changes nothing is left out. While it stands at the local time of the newest entry, each read with
the offset in effect before it, that entry is taken back. -/
def push : History → Transition → History × Bool
  | [], transition => ([transition], true)
  | last :: older, transition =>
    if transition.follows (some last) then
      let offsetBeforeLast := (older.head?.map Transition.wallOffset).getD 0
      if transition.millis + last.wallOffset = last.millis + offsetBeforeLast then
        push older transition
      else (transition :: last :: older, true)
    else (last :: older, false)

end History

end CivilTime
