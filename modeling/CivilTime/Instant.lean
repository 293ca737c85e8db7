import CivilTime.Calendar
import CivilTime.Text.Numbers

/-!
Instants are milliseconds since 1970-01-01T00:00Z, without a bound in either direction.
-/

namespace CivilTime.Instant

def millisPerSecond : Int := 1000
def millisPerMinute : Int := 60 * millisPerSecond
def millisPerHour : Int := 60 * millisPerMinute
def millisPerDay : Int := 24 * millisPerHour

/-- The instant at which every timeline begins, standing for minus infinity. -/
def earliest : Int := -9223372036854775808

def yearOf (millis : Int) : Int :=
  (Calendar.civilFromDays (millis / millisPerDay)).year

/-- Midnight at the start of the first of January. -/
def startOfYear (year : Int) : Int :=
  Calendar.daysFromCivil year 1 1 * millisPerDay

/-- The text of an instant as date and time of day, such as `1980-01-01T00:00:00.000Z`. -/
def render (millis : Int) : String :=
  let date := Calendar.civilFromDays (millis / millisPerDay)
  let ofDay := millis % millisPerDay
  let seconds := ofDay / 1000
  let minutes := seconds / 60
  Text.paddedInt 4 date.year ++ "-" ++ Text.paddedInt 2 date.month ++ "-" ++
    Text.paddedInt 2 date.day ++ "T" ++ Text.paddedInt 2 (minutes / 60) ++ ":" ++
    Text.paddedInt 2 (minutes % 60) ++ ":" ++ Text.paddedInt 2 (seconds % 60) ++ "." ++
    Text.paddedInt 3 (ofDay % 1000) ++ "Z"

end CivilTime.Instant
