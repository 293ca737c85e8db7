import CivilTime.Message
import CivilTime.Text.Numbers

/-!
What can be wrong with the fields of a source line.
-/

namespace CivilTime.Source

inductive Fault where
  | malformedInteger (text : String)
  | overlong (number : Text.Overlong)
  | malformedDuration (text : String)
  | unknownMonth (text : String)
  | unknownWeekday (text : String)
  | malformedDay (text : String)
  | unsupportedTime (text : String)
  | dayOutsideMonth
  /-- The day that midnight is moved from is not a 32-bit number. -/
  | dayTooLarge
  /-- The time of day is an empty text. -/
  | emptyTime
  | incompleteRule
  | incompleteZone
  | incompleteLink
  | unnamedZone
  | reversedYears (rule : String) (fromYear toYear : Int)
  | missingSave (rule : String)
  | ruleNameMismatch (rule set : String)
  deriving DecidableEq, Repr

namespace Fault

def message : Fault → String
  | .malformedInteger text =>
    "invalid literal for int() with base 10: " ++
      String.ofList ((Text.Quoted.encode text).toList.take 200)
  | .overlong number => number.message
  | .malformedDuration text => "Invalid time: " ++ text
  | .unknownMonth text => "Unknown month: " ++ text
  | .unknownWeekday text => "Unknown day-of-week: " ++ text
  | .malformedDay text => "Invalid day of month: " ++ text
  | .unsupportedTime text => "Unsupported time of day: " ++ text
  | .dayOutsideMonth => "day is out of range for month"
  | .dayTooLarge => "day number is too large"
  | .emptyTime => "empty time of day"
  | .incompleteRule => "Attempting to create a Rule from an incomplete line"
  | .incompleteZone => "Attempting to create a Zone from an incomplete line"
  | .incompleteLink => "Attempting to create a Link from an incomplete line"
  | .unnamedZone => "zone without a name"
  | .reversedYears rule fromYear toYear =>
    "Rule '" ++ rule ++ "': TO year " ++ Text.ofInt toYear ++ " < FROM year " ++
      Text.ofInt fromYear
  | .missingSave rule => "Rule '" ++ rule ++ "': missing SAVE or LETTER field"
  | .ruleNameMismatch rule set => "Rule name mismatch: '" ++ rule ++ "' added to '" ++ set ++ "'"

/-- A fault of the text of a line, which is reported with the line. The others are not: a day
number out of all bounds, and fields that are not there at all. -/
def isReported : Fault → Bool
  | .dayTooLarge | .emptyTime | .unnamedZone => false
  | _ => true

end Fault

end CivilTime.Source
