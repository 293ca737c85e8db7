/-!
The proleptic Gregorian calendar on all integers: days since 1970-01-01, civil dates and ISO
weekdays. Years are counted in eras of 400 years, and inside an era from the first of March, so
that a leap day is always the last day of its year.
-/

namespace CivilTime

structure Date where
  year : Int
  month : Int
  day : Int
  deriving DecidableEq, Repr

namespace Calendar

def isLeap (year : Int) : Bool :=
  year % 4 == 0 && (year % 100 != 0 || year % 400 == 0)

/-- The length of a month outside leap years. Months may also be counted back from the end of the
year: month 0 is December and month -11 is January. Any other number is no month. -/
def monthLength? (month : Int) : Option Int :=
  let index := if month ≤ 0 then month + 11 else month - 1
  if index < 0 then none
  else ([31, 28, 31, 30, 31, 30, 31, 31, 30, 31, 30, 31] : List Int)[index.toNat]?

/-- The number of days of a month, which is one more for the second month of a leap year. -/
def daysInMonth? (year month : Int) : Option Int :=
  (monthLength? month).map fun length =>
    if month = 2 ∧ isLeap year then length + 1 else length

def daysInMonth (year month : Int) : Int :=
  (daysInMonth? year month).getD 0

/-- Days from 1970-01-01 to the given date. The day of the month is not bounded: day 0 is the day
before the first. -/
def daysFromCivil (year month day : Int) : Int :=
  let year := if month ≤ 2 then year - 1 else year
  let era := year / 400
  let yearOfEra := year - era * 400
  let shifted := if 2 < month then month - 3 else month + 9
  let dayOfYear := (153 * shifted + 2) / 5 + day - 1
  let dayOfEra := yearOfEra * 365 + yearOfEra / 4 - yearOfEra / 100 + dayOfYear
  era * 146097 + dayOfEra - 719468

def civilFromDays (days : Int) : Date :=
  let days := days + 719468
  let era := days / 146097
  let dayOfEra := days - era * 146097
  let yearOfEra :=
    (dayOfEra - dayOfEra / 1460 + dayOfEra / 36524 - dayOfEra / 146096) / 365
  let dayOfYear := dayOfEra - (365 * yearOfEra + yearOfEra / 4 - yearOfEra / 100)
  let shifted := (5 * dayOfYear + 2) / 153
  let month := if shifted < 10 then shifted + 3 else shifted - 9
  let year := yearOfEra + era * 400
  { year := if month ≤ 2 then year + 1 else year
    month := month
    day := dayOfYear - (153 * shifted + 2) / 5 + 1 }

/-- The ISO weekday, from 1 for Monday to 7 for Sunday. Day 0 is a Thursday. -/
def weekday (days : Int) : Int :=
  (days + 3) % 7 + 1

end Calendar

end CivilTime
