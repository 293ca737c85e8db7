import CivilTime.Source.Rule

/-!
Zones: a name and a list of stretches, each with its standard offset, its savings, the format of
its names and the point at which it ends.
-/

namespace CivilTime.Source

/-- One line of a zone. The savings are the name of a rule set, a fixed duration, or nothing. -/
structure Stretch where
  standardOffset : Int
  savings : Option String
  format : String
  untilYear : Option Int
  untilPoint : YearPoint
  deriving DecidableEq, Repr

namespace Stretch

def read : List String → Except Fault (Stretch × List String)
  | offset :: savings :: format :: rest => do
    let standardOffset ← Field.duration offset
    let savings := Field.optional savings
    match rest with
    | [] =>
      return ({ standardOffset, savings, format, untilYear := none,
                untilPoint := .startOfYear }, [])
    | year :: rest =>
      let year ← Field.integer year
      let (untilPoint, rest) ← PointFields.read rest
      return ({ standardOffset, savings, format, untilYear := some year, untilPoint }, rest)
  | _ => .error .incompleteZone

def isTerminal (stretch : Stretch) : Bool :=
  stretch.untilYear.isNone

def fixedDirectives (stretch : Stretch) (save : Int) : List Directive :=
  [.standardOffset stretch.standardOffset,
    .fixedSaving (Abbreviation.fixed stretch.format stretch.standardOffset save) save]

end Stretch

structure Zone where
  name : String
  first : Stretch
  others : List Stretch := []
  deriving DecidableEq, Repr

inductive Obstacle where
  | missingRules (zone rules : String)
  | overlong (save : Text.Overlong)
  deriving DecidableEq, Repr

def Obstacle.message : Obstacle → String
  | .missingRules zone rules => "Zone '" ++ zone ++ "': Rules not found: " ++ rules
  | .overlong save => save.message

/-- What a zone resolves to. If something is missing, such as the rules of a stretch, the directives
are those before that stretch. -/
structure Resolution where
  directives : List Directive := []
  messages : List Message := []
  missing : Option Obstacle := none
  deriving DecidableEq, Repr

namespace Resolution

def before (first rest : Resolution) : Resolution :=
  { directives := first.directives ++ rest.directives
    messages := first.messages ++ rest.messages
    missing := rest.missing }

end Resolution

namespace Zone

def stretches (zone : Zone) : List Stretch :=
  zone.first :: zone.others

def read : List String → Except Fault Zone
  | [] => .error .unnamedZone
  | name :: fields => do
    let (first, _) ← Stretch.read fields
    return { name, first }

def continueWith (zone : Zone) (fields : List String) : Except Fault Zone := do
  let (stretch, _) ← Stretch.read fields
  return { zone with others := zone.others ++ [stretch] }

/-- What a stretch of the zone `name` resolves to, its end apart. -/
def resolveSavings (name : String) (rules : String → Option RuleSet) (stretch : Stretch) :
    Resolution :=
  match stretch.savings with
  | none => { directives := stretch.fixedDirectives 0 }
  | some savings =>
    match Duration.readWhole savings with
    | .ok (some save) => { directives := stretch.fixedDirectives save }
    | .ok none =>
      match rules savings with
      | some set =>
        { directives := set.directives stretch.standardOffset stretch.format
          messages := set.messages }
      | none => { missing := some (.missingRules name savings) }
    | .error save => { missing := some (.overlong save) }

/-- Resolves stretches in order, with a cutover at the end of each, up to one without an end or
with something missing. -/
def resolveStretches (name : String) (rules : String → Option RuleSet) :
    List Stretch → Resolution
  | [] => {}
  | stretch :: rest =>
    let resolution := resolveSavings name rules stretch
    match resolution.missing, stretch.untilYear with
    | some _, _ | none, none => resolution
    | none, some year =>
      (resolution.before { directives := [.cutover year stretch.untilPoint] }).before
        (resolveStretches name rules rest)

def resolve (zone : Zone) (rules : String → Option RuleSet) : Resolution :=
  resolveStretches zone.name rules zone.stretches

end Zone

end CivilTime.Source
