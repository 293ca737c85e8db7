import CivilTime.Instant
import CivilTime.Text.Pieces

/-!
Abbreviations of zone names. A format is a pair for standard and daylight time, a pattern with a
place for a letter, the mark for the offset itself, or a plain name.
-/

namespace CivilTime.Abbreviation

/-- An offset as a sign and two digits each for the hours and, as far as they are not zero, for the
minutes and the seconds. -/
def ofOffset (millis : Int) : String :=
  let sign := if millis < 0 then "-" else "+"
  let seconds := millis.natAbs / 1000
  let hours := Text.paddedNat 2 (seconds / 3600)
  let minutes := seconds / 60 % 60
  let second := seconds % 60
  if second = 0 then
    if minutes = 0 then sign ++ hours
    else sign ++ hours ++ Text.paddedNat 2 minutes
  else sign ++ hours ++ Text.paddedNat 2 minutes ++ Text.paddedNat 2 second

/-- The two halves of a format with a slash that is not its first character. -/
def halves? (format : String) : Option (String × String) :=
  match format.toList.takeWhile (· ≠ '/'), format.toList.dropWhile (· ≠ '/') with
  | c :: first, _ :: second => some (String.ofList (c :: first), String.ofList second)
  | _, _ => none

def swapHalves (format : String) : String :=
  match halves? format with
  | some (first, second) => second ++ "/" ++ first
  | none => format

def render (format : String) (save : Int) (letter : Option String) (standardOffset : Int) :
    String :=
  match halves? format with
  | some (first, second) => if save = 0 then first else second
  | none =>
    match Text.splitAtFirst? ['%', 's'] format.toList with
    | some (before, after) => String.ofList before ++ letter.getD "" ++ String.ofList after
    | none => if format = "%z" then ofOffset (standardOffset + save) else format

/-- The name of a state with a fixed saving, which takes only the mark for the offset. -/
def fixed (format : String) (standardOffset save : Int) : String :=
  if format = "%z" then ofOffset (standardOffset + save) else format

end CivilTime.Abbreviation
