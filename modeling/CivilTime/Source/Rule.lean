import CivilTime.Abbreviation
import CivilTime.Message
import CivilTime.Source.PointFields
import CivilTime.YearPoint

/-!
Rules: in a range of years, at a point of the year, a saving and a letter come into effect. The
rules of one name make a rule set and are resolved together.
-/

namespace CivilTime.Source

structure Rule where
  name : String
  fromYear : Int
  toYear : Int
  /-- Kept for display only. -/
  type : Option String
  point : YearPoint
  save : Int
  letter : Option String
  deriving DecidableEq, Repr

namespace Rule

def read (fields : List String) : Except Fault (Rule × List String) := do
  match fields with
  | name :: fromYear :: toYear :: type :: rest =>
    if rest.length < 2 then throw .incompleteRule
    let fromYear ← Field.year fromYear 0
    let toYear ← Field.year toYear fromYear
    if toYear < fromYear then throw (.reversedYears name fromYear toYear)
    let (point, rest) ← PointFields.read rest
    match rest with
    | save :: letter :: rest =>
      let save ← Field.duration save
      return ({ name, fromYear, toYear, type := Field.optional type, point, save,
                letter := Field.optional letter }, rest)
    | _ => throw (.missingSave name)
  | _ => throw .incompleteRule

/-- The year in which the rule that precedes all others begins. -/
def anchorYear : Int := 1800

/-- A rule without saving that lasts until the given rule begins, so that there is a state before
it. -/
def anchor (rule : Rule) : Rule :=
  { rule with fromYear := anchorYear, toYear := rule.fromYear, type := none, save := 0 }

/-- The directive for a rule, where `lowest` is taken off its saving. -/
def directive (rule : Rule) (lowest : Int) (format : String) (standardOffset : Int) : Directive :=
  let save := rule.save - lowest
  let name := Abbreviation.render format save rule.letter standardOffset
  .recurringSaving { point := rule.point, name, save } rule.fromYear rule.toYear

end Rule

/-- The rules of one name, in reading order. The name is that of the first. -/
structure RuleSet where
  first : Rule
  others : List Rule := []
  deriving DecidableEq, Repr

namespace RuleSet

def rules (set : RuleSet) : List Rule :=
  set.first :: set.others

def name (set : RuleSet) : String :=
  set.first.name

def hasNegativeSave (set : RuleSet) : Bool :=
  set.rules.any fun rule => rule.save < 0

def add (set : RuleSet) (rule : Rule) : Except Fault RuleSet :=
  if rule.name = set.name then .ok { set with others := set.others ++ [rule] }
  else .error (.ruleNameMismatch rule.name set.name)

/-- The least saving of the rules, or zero if none is negative. -/
def lowestSave (set : RuleSet) : Int :=
  set.rules.foldl (fun lowest rule => min lowest rule.save) 0

/-- The directives for a stretch under these rules. If some saving is negative, the lowest is added
to the standard offset and taken off every rule, the halves of the format change places, and an
anchor holds before the first rule. -/
def directives (set : RuleSet) (standardOffset : Int) (format : String) : List Directive :=
  let lowest := set.lowestSave
  if lowest < 0 then
    let standardOffset := standardOffset + lowest
    let format := Abbreviation.swapHalves format
    .standardOffset standardOffset ::
      (set.first.anchor :: set.rules).map fun rule =>
        rule.directive lowest format standardOffset
  else
    .standardOffset standardOffset ::
      set.rules.map fun rule => rule.directive lowest format standardOffset

def messages (set : RuleSet) : List Message :=
  if set.lowestSave < 0 then
    [.info ("Fixed negative save values for rule '" ++ set.name ++ "'")]
  else []

end RuleSet

end CivilTime.Source
