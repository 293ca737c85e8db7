import CivilTime.Instant

/-!
Durations of the form `[-]h[:m[:s[.f]]]`, where each part is a row of decimal digits. A fraction
counts with its first three digits.
-/

namespace CivilTime

/-- The fields of a duration as written. A field after a missing one is missing too. -/
structure Duration where
  negative : Bool
  hours : List Char
  minutes : Option (List Char) := none
  seconds : Option (List Char) := none
  fraction : Option (List Char) := none

namespace Duration

/-- A row of at least one digit after the character `mark`, and what follows it. -/
def field? (mark : Char) : List Char → Option (List Char × List Char)
  | [] => none
  | c :: cs =>
    if c = mark then
      match cs.takeWhile Text.isDecimal with
      | [] => none
      | digits => some (digits, cs.dropWhile Text.isDecimal)
    else none

/-- The longest duration that a text starts with, and what follows it. -/
def scan? (cs : List Char) : Option (Duration × List Char) :=
  let negative := cs.head? == some '-'
  let cs := if negative then cs.tail else cs
  match cs.takeWhile Text.isDecimal with
  | [] => none
  | hours =>
    let rest := cs.dropWhile Text.isDecimal
    match field? ':' rest with
    | none => some ({ negative, hours }, rest)
    | some (minutes, rest) =>
      match field? ':' rest with
      | none => some ({ negative, hours, minutes := some minutes }, rest)
      | some (seconds, rest) =>
        match field? '.' rest with
        | none => some ({ negative, hours, minutes := some minutes, seconds := some seconds }, rest)
        | some (fraction, rest) =>
          some ({ negative, hours, minutes := some minutes, seconds := some seconds,
                  fraction := some fraction }, rest)

/-- The first three digits of a fraction, with zeros for missing ones, as milliseconds. -/
def fractionMillis (digits : List Char) : Nat :=
  Text.digitsValue ((digits ++ ['0', '0']).take 3)

/-- The number in a field, which is zero if the field is missing. -/
def part : Option (List Char) → Except Text.Overlong Nat
  | none => .ok 0
  | some digits => Text.readDigits digits

def total (duration : Duration) (hours minutes seconds : Nat) : Int :=
  let millis : Int :=
    hours * Instant.millisPerHour + minutes * Instant.millisPerMinute +
      seconds * Instant.millisPerSecond + (duration.fraction.map fractionMillis).getD 0
  if duration.negative then -millis else millis

/-- The length of a duration in milliseconds. Its fraction may have any number of digits. -/
def millis (duration : Duration) : Except Text.Overlong Int := do
  let hours ← part (some duration.hours)
  let minutes ← part duration.minutes
  let seconds ← part duration.seconds
  return duration.total hours minutes seconds

/-- Reads a text that is a duration as a whole, if it is one. -/
def readWhole (text : String) : Except Text.Overlong (Option Int) :=
  match scan? text.toList with
  | some (duration, []) => duration.millis.map some
  | _ => .ok none

/-- Reads the longest duration that a text starts with, if there is one. A lone hyphen is zero. -/
def readLeading (text : String) : Except Text.Overlong (Option Int) :=
  if text = "-" then .ok (some 0)
  else
    match scan? text.toList with
    | some (duration, _) => duration.millis.map some
    | none => .ok none

end Duration

end CivilTime
