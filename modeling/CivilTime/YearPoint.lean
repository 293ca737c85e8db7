import CivilTime.Instant

/-!
A point that recurs every year, such as the second Sunday of March at 2:00 wall time, the search for
its next and previous occurrence, and the directives that lay out a timeline by such points.

The functions here are total: for a month that is no month they compute with a month of no days.
The versions with a question mark refuse such a month.
-/

namespace CivilTime

/-- The clock that a time of day is read on, known by its mark. Only the marks `w` and `s` name a
local clock; every other mark is read as universal time. -/
structure Clock where
  mark : String
  deriving DecidableEq, Repr

namespace Clock

def wall : Clock := ⟨"w"⟩
def standard : Clock := ⟨"s"⟩
def universal : Clock := ⟨"u"⟩

/-- How far the clock is ahead of universal time. -/
def offset (clock : Clock) (standardOffset save : Int) : Int :=
  if clock = wall then standardOffset + save
  else if clock = standard then standardOffset
  else 0

end Clock

/-- A point of the year. A negative day counts back from the end of the month, and a day after the
end of the month is the last one. A weekday other than 0 moves the date to that weekday, forwards
if `advance` is set and backwards otherwise. -/
structure YearPoint where
  clock : Clock := .wall
  month : Int := 1
  day : Int := 1
  weekday : Int := 0
  advance : Bool := false
  millisOfDay : Int := 0
  deriving DecidableEq, Repr

namespace YearPoint

def startOfYear : YearPoint := {}

def hasMonth (point : YearPoint) : Bool :=
  (Calendar.monthLength? point.month).isSome

def offset (point : YearPoint) (standardOffset save : Int) : Int :=
  point.clock.offset standardOffset save

/-- The day that the weekday is counted from, in days since 1970-01-01. -/
def baseDays (point : YearPoint) (year : Int) : Int :=
  let length := Calendar.daysInMonth year point.month
  let day := if point.day < 0 then length + 1 + point.day else min point.day length
  Calendar.daysFromCivil year point.month day

/-- The number of days from the base to the wanted weekday. -/
def weekdayShift (point : YearPoint) (base : Int) : Int :=
  if point.weekday = 0 then 0
  else
    let shift := point.weekday - Calendar.weekday base
    if point.advance then
      if shift < 0 then shift + 7 else shift
    else
      if 0 < shift then shift - 7 else shift

/-- The point in the given year, as milliseconds on its own clock. -/
def localMillis (point : YearPoint) (year : Int) : Int :=
  let base := point.baseDays year
  (base + point.weekdayShift base) * Instant.millisPerDay + point.millisOfDay

def instantIn (point : YearPoint) (year standardOffset save : Int) : Int :=
  point.localMillis year - point.offset standardOffset save

/-- The first occurrence after `instant`, looked for in the year of `instant` and in the one after
it. -/
def next (point : YearPoint) (instant standardOffset save : Int) : Int :=
  let offset := point.offset standardOffset save
  let here := instant + offset
  let year := Instant.yearOf here
  let candidate := point.localMillis year
  (if candidate ≤ here then point.localMillis (year + 1) else candidate) - offset

/-- The last occurrence before `instant`, looked for in the year of `instant` and in the one before
it. -/
def previous (point : YearPoint) (instant standardOffset save : Int) : Int :=
  let offset := point.offset standardOffset save
  let here := instant + offset
  let year := Instant.yearOf here
  let candidate := point.localMillis year
  (if here ≤ candidate then point.localMillis (year - 1) else candidate) - offset

/-- A value that depends on the month, refused if the point has none. -/
def guarded {α : Type} (point : YearPoint) (value : α) : Option α :=
  if point.hasMonth then some value else none

def localMillis? (point : YearPoint) (year : Int) : Option Int :=
  point.guarded (point.localMillis year)

def instantIn? (point : YearPoint) (year standardOffset save : Int) : Option Int :=
  point.guarded (point.instantIn year standardOffset save)

def next? (point : YearPoint) (instant standardOffset save : Int) : Option Int :=
  point.guarded (point.next instant standardOffset save)

def previous? (point : YearPoint) (instant standardOffset save : Int) : Option Int :=
  point.guarded (point.previous instant standardOffset save)

end YearPoint

/-- A point of the year with the name and the saving that come into effect there. -/
structure Recurrence where
  point : YearPoint
  name : String
  save : Int
  deriving DecidableEq, Repr

/-- What holds in the stretches of a timeline, and the cutover at which the next stretch begins. -/
inductive Directive where
  | standardOffset (millis : Int)
  | fixedSaving (name : String) (save : Int)
  | recurringSaving (recurrence : Recurrence) (fromYear toYear : Int)
  | cutover (year : Int) (point : YearPoint)
  deriving DecidableEq, Repr

/-- The year that stands for forever: a saving that recurs up to this year recurs without end. -/
def Directive.foreverYear : Int := 9999

end CivilTime
