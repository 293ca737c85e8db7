import CivilTime.Duration
import CivilTime.Keyword
import CivilTime.Source.Fault
import CivilTime.Text.Numbers
import CivilTime.YearPoint

/-!
Single fields of source lines: integers, years, months, weekdays, durations and clocks.
-/

namespace CivilTime.Source.Field

def minYear : Int := 0

def maxYear : Int := Directive.foreverYear

/-- Takes over what has been read from a number, where nothing is a `fault`. -/
def number (fault : Fault) : Except Text.Overlong (Option Int) → Except Fault Int
  | .ok (some n) => .ok n
  | .ok none => .error fault
  | .error overlong => .error (.overlong overlong)

def integer (text : String) : Except Fault Int :=
  number (.malformedInteger text) (Text.readInteger text)

/-- A year, where `only` repeats the year `same`. -/
def year (text : String) (same : Int) : Except Fault Int :=
  let word := Text.lower text
  if Keyword.minimum.accepts word then .ok minYear
  else if Keyword.maximum.accepts word then .ok maxYear
  else if Keyword.only.accepts word then .ok same
  else integer text

def month (text : String) : Except Fault Int :=
  match Keyword.position? Keyword.months text with
  | some n => .ok n
  | none => .error (.unknownMonth text)

def weekday (text : String) : Except Fault Int :=
  match Keyword.position? Keyword.weekdays text with
  | some n => .ok n
  | none => .error (.unknownWeekday text)

/-- A field that a lone hyphen leaves empty. -/
def optional (text : String) : Option String :=
  if text = "-" then none else some text

def duration (text : String) : Except Fault Int :=
  number (.malformedDuration text) (Duration.readLeading text)

/-- The clock that the last letter of a time names: `s` for standard time, `u`, `g` or `z` for
universal time, and wall time for anything else. -/
def clock (mark : String) : Clock :=
  let word := Text.lower mark
  if word = "s" then .standard
  else if word = "u" ∨ word = "g" ∨ word = "z" then .universal
  else .wall

end CivilTime.Source.Field
