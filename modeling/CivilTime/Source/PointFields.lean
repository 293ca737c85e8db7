import CivilTime.Source.Field
import CivilTime.Text.Characters
import CivilTime.Text.Pieces

/-!
A point of the year read from up to three fields: month, day and time. The day is a number, the last
weekday of the month, or a weekday on or after, or on or before, a number. The time 24:00 is the
midnight that ends the day, and is turned into the start of the day after.
-/

namespace CivilTime.Source

/-- The day of a point: the number in its month, the weekday, and the direction of the weekday. -/
structure DayField where
  day : Int := 1
  weekday : Int := 0
  advance : Bool := false
  deriving DecidableEq, Repr

namespace DayField

def lastDay : Int := -1

/-- A weekday on one side of a day number, which stands after the two characters of `sign`. -/
def relative? (sign : String) (advance : Bool) (text : String) :
    Option (Except Fault DayField) :=
  match Text.splitAtFirst? sign.toList text.toList with
  | none | some ([], _) => none
  | some (name, number) => some do
    let day ← Field.integer (String.ofList number)
    let weekday ← Field.weekday (String.ofList name)
    return { day, weekday, advance }

def read (text : String) : Except Fault DayField :=
  let cs := text.toList
  if !cs.isEmpty && cs.all Text.isDigitLike then do
    return { day := ← Field.integer text }
  else if "last".toList.isPrefixOf (Text.lower text).toList then do
    return { day := lastDay, weekday := ← Field.weekday (String.ofList (cs.drop 4)) }
  else
    match relative? ">=" true text with
    | some result => result
    | none =>
      match relative? "<=" false text with
      | some result => result
      | none => .error (.malformedDay text)

end DayField

namespace PointFields

/-- The time of day for 24:00 on the last day of the year, which stays inside the year. -/
def endOfYearMillis : Int := Instant.millisPerDay - 1

/-- The day after a day of a common year, as month and day. -/
def dayAfter (month day : Int) : Except Fault (Int × Int) :=
  if day < -2147483648 ∨ 2147483648 ≤ day then .error .dayTooLarge
  else
    let length := Calendar.daysInMonth 2001 month
    if day < 1 ∨ length < day then .error .dayOutsideMonth
    else if day < length then .ok (month, day + 1)
    else .ok (month % 12 + 1, 1)

/-- The month and day field for the midnight that ends the given day. The last weekday of a month
becomes the following weekday on or before the first of the next month. -/
def endOfDay (month : Int) (field : DayField) : Except Fault (Int × DayField) := do
  let weekday := if field.weekday = 0 then 0 else field.weekday % 7 + 1
  if field.day = DayField.lastDay then
    return (month % 12 + 1, { day := 1, weekday, advance := false })
  else
    let (month, day) ← dayAfter month field.day
    return (month, { day, weekday, advance := field.weekday != 0 })

/-- The clock that a time is read on, and the time without the letter that names it. -/
def splitClock (text : String) : Except Fault (Clock × String) :=
  match text.toList.reverse with
  | [] => .error .emptyTime
  | last :: others =>
    .ok (Field.clock (String.ofList [last]),
      if Text.isLetter last then String.ofList others.reverse else text)

def withTime (month : Int) (field : DayField) (text : String) : Except Fault YearPoint := do
  let (clock, time) ← splitClock text
  if time = "24:00" then
    if month = 12 ∧ field.day = 31 then
      return ⟨clock, month, field.day, field.weekday, field.advance, endOfYearMillis⟩
    else
      let (month, field) ← endOfDay month field
      return ⟨clock, month, field.day, field.weekday, field.advance, 0⟩
  else
    let millis ← Field.duration time
    if millis < 0 ∨ Instant.millisPerDay ≤ millis then
      throw (.unsupportedTime time)
    else
      return ⟨clock, month, field.day, field.weekday, field.advance, millis⟩

/-- Reads a point from the first fields of a line and returns it with the fields that are left.
Without any field it is the start of the year. -/
def read : List String → Except Fault (YearPoint × List String)
  | [] => .ok (YearPoint.startOfYear, [])
  | [month] => do
    return ({ month := ← Field.month month }, [])
  | [month, day] => do
    let month ← Field.month month
    let field ← DayField.read day
    return ({ month, day := field.day, weekday := field.weekday, advance := field.advance }, [])
  | month :: day :: time :: rest => do
    let month ← Field.month month
    let field ← DayField.read day
    return (← withTime month field time, rest)

end PointFields

end CivilTime.Source
