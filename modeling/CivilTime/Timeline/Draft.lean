import CivilTime.Message
import CivilTime.TimeZone
import CivilTime.Timeline.Era
import CivilTime.YearPoint

/-!
A draft is the list of eras that directives have laid out. Its timeline is simulated era by era,
and becomes a time zone.
-/

namespace CivilTime

structure Draft where
  eras : List Era := []
  deriving DecidableEq, Repr

namespace Draft

/-- Changes the last era, which is a new one if there is none. -/
def modifyLast (draft : Draft) (change : Era → Era) : Draft :=
  match draft.eras.reverse with
  | [] => ⟨[change {}]⟩
  | last :: earlier => ⟨(change last :: earlier).reverse⟩

/-- Carries out a directive. A recurring saving whose years are reversed is ignored. A cutover ends
the last era and begins a new one. -/
def apply (draft : Draft) : Directive → Draft
  | .standardOffset millis =>
    draft.modifyLast fun era => { era with standardOffset := millis }
  | .fixedSaving name save =>
    draft.modifyLast fun era => { era with fixed := some ⟨name, save⟩ }
  | .recurringSaving recurrence fromYear toYear =>
    if toYear < fromYear then draft
    else
      draft.modifyLast fun era =>
        { era with rules := era.rules ++ [⟨recurrence, fromYear, toYear⟩] }
  | .cutover year point =>
    if draft.eras.isEmpty then ⟨[{}]⟩
    else
      let ended := draft.modifyLast fun era => { era with cutover := some ⟨year, point⟩ }
      ⟨ended.eras ++ [{}]⟩

def ofDirectives (directives : List Directive) : Draft :=
  directives.foldl apply {}

end Draft

/-- A timeline in the making: what has been computed so far, the instant reached and the saving in
effect there. -/
structure Progress where
  history : History := []
  tail : Option Tail := none
  millis : Int := Instant.earliest
  save : Int := 0
  deriving DecidableEq, Repr

namespace Progress

/-- Follows the rules of an era to its end. Once there is a tail, the first transition added after
it ends the walk, which joins the two. `tailAllowed` says whether a tail may be attached. -/
def follow (era : Era) (tailAllowed : Bool) (rules : List YearlyRule) (progress : Progress) :
    Progress :=
  match _h : era.nextTransition rules progress.millis progress.save with
  | (none, _) => progress
  | (some transition, remaining) =>
    if (progress.history.push transition).2 && progress.tail.isSome then
      { progress with history := (progress.history.push transition).1 }
    else
      follow era tailAllowed remaining
        { history := (progress.history.push transition).1
          tail :=
            if progress.tail.isNone && tailAllowed then era.tail? remaining else progress.tail
          millis := transition.millis
          save := transition.save }
  termination_by (Era.limit - progress.millis).toNat
  decreasing_by
    have := @Era.nextTransition_bounds era rules progress.millis progress.save transition
      (by rw [_h])
    omega

def undefinedName : String := "??"

/-- Passes over an era about which nothing is said: the offsets go on under the undefined name. -/
def skip (progress : Progress) : Progress :=
  match progress.history with
  | [] => progress
  | last :: _ =>
    if last.millis < progress.millis then
      let transition := { last with millis := progress.millis, name := undefinedName }
      { progress with history := (progress.history.push transition).1 }
    else progress

/-- Enters an era and follows it to the end of its rules. -/
def enter (progress : Progress) (era : Era) (tailAllowed : Bool) (first : Transition) : Progress :=
  follow era tailAllowed era.rules
    { progress with
      history := (progress.history.push first).1
      millis := first.millis
      save := first.save }

/-- Walks through eras in order. Only in the last one a tail may be attached, and only if `tails`
says so. An era without a cutover ends the walk. -/
def walk (tails : Bool) : List Era → Progress → Progress
  | [], progress => progress
  | era :: rest, progress =>
    if era.isEmpty then walk tails rest progress.skip
    else
      match era.firstTransition progress.millis with
      | none => walk tails rest progress
      | some first =>
        let progress := progress.enter era (tails && rest.isEmpty) first
        match era.upperLimit progress.save with
        | none => progress
        | some upper => walk tails rest { progress with millis := upper }

end Progress

namespace Draft

/-- The timeline of the eras, with a tail where one can be attached, or computed up to the limit
throughout if `tails` is false. -/
def simulate (draft : Draft) (tails : Bool) : Progress :=
  Progress.walk tails draft.eras {}

def universalTime : Transition := ⟨Instant.earliest, "UTC", 0, 0⟩

/-- The time zone of a simulated timeline, which is universal time if it has no transition. -/
def zoneOf (id : String) (progress : Progress) : TimeZone :=
  let history := if progress.history.isEmpty then [universalTime] else progress.history
  { id, transitions := history.reverse.toArray, tail := progress.tail }

def toTimeZone (draft : Draft) (id : String) : TimeZone :=
  zoneOf id (draft.simulate true)

/-- The same zone computed up to the limit without a tail. -/
def toPlainTimeZone (draft : Draft) (id : String) : TimeZone :=
  zoneOf id (draft.simulate false)

def messagesOf (id : String) (progress : Progress) : List Message :=
  if progress.history.isEmpty then
    [.debug ("Zone '" ++ id ++ "' has no transitions, using UTC")]
  else []

def build (draft : Draft) (id : String) : TimeZone × List Message :=
  let progress := draft.simulate true
  (zoneOf id progress, messagesOf id progress)

/-- Some era cannot be computed, because it names a month that is none. -/
def lacksMonth (draft : Draft) : Bool :=
  draft.eras.any Era.lacksMonth

/-- The time zone of the draft with the messages of its making, refused for a month that is
none. -/
def build? (draft : Draft) (id : String) : Option (TimeZone × List Message) :=
  if draft.lacksMonth then none else some (draft.build id)

end Draft

end CivilTime
