import CivilTime.Message
import CivilTime.Timeline.Draft

/-!
Verification of a zone by its answers: its transitions in a range of years are walked forwards, then
backwards. Every transition has to change the state and to have a proper name, and the walk
backwards has to meet the same transitions.

The zone is given by its queries, so that anything that answers them can be verified.
-/

namespace CivilTime

/-- The queries of a zone. Each may refuse to answer. -/
structure Queries where
  id : String
  offset : Int → Option Int
  standardOffset : Int → Option Int
  name : Int → Option (Option String)
  next : Int → Option Int
  previous : Int → Option Int

def TimeZone.queries (zone : TimeZone) : Queries where
  id := zone.id
  offset := zone.offsetAt?
  standardOffset instant := some (zone.standardOffsetAt instant)
  name instant := (zone.nameAt? instant).map some
  next := zone.nextTransition?
  previous := zone.previousTransition?

namespace Verification

structure View where
  offset : Int
  standardOffset : Int
  name : Option String
  deriving DecidableEq, Repr

def view? (zone : Queries) (instant : Int) : Option View := do
  let offset ← zone.offset instant
  let standardOffset ← zone.standardOffset instant
  let name ← zone.name instant
  return { offset, standardOffset, name }

/-- A name is proper if it has at least three characters or is the undefined one. -/
def isProper : Option String → Bool
  | none => false
  | some name => 3 ≤ name.length || name == Progress.undefinedName

inductive Defect where
  | unchanged (millis : Int)
  | improperName (millis : Int) (name : Option String)
  | reverseMismatch (millis expected : Int)
  deriving DecidableEq, Repr

def Defect.message (id : String) : Defect → String
  | .unchanged millis => "*d* Error in " ++ id ++ " " ++ Instant.render millis
  | .improperName millis name =>
    "*s* Error in " ++ id ++ " " ++ Instant.render millis ++ ", nameKey=" ++ name.getD "None"
  | .reverseMismatch millis expected =>
    "*r* Error in " ++ id ++ " " ++ Instant.render millis ++ " != " ++ Instant.render expected

inductive Failure where
  | refused
  | endless
  deriving DecidableEq, Repr

inductive Walk (α : Type) where
  | done (value : α)
  | defect (defect : Defect)
  | failed (failure : Failure)

/-- How often a walk may go back in time before it is given up. -/
def patience : Nat := 1000000

/-- Walks forwards from `millis`, where the zone shows `view`, up to `last`. The transitions found
are put on those found before, newest first. A query that leads back in time is followed, as often
as `patience` allows. -/
def walkForward (zone : Queries) (last : Int) (patience : Nat) (millis : Int) (view : View)
    (found : List Int) : Walk (List Int) :=
  match zone.next millis with
  | none => .failed .refused
  | some next =>
    if next = millis ∨ last < next then .done found
    else
      match view? zone next with
      | none => .failed .refused
      | some nextView =>
        if nextView = view then .defect (.unchanged next)
        else if !isProper nextView.name then .defect (.improperName next nextView.name)
        else if millis < next then walkForward zone last patience next nextView (next :: found)
        else
          match patience with
          | 0 => .failed .endless
          | patience + 1 => walkForward zone last patience next nextView (next :: found)
  termination_by (patience, (last - millis).toNat)

/-- Walks backwards from `millis` and compares with the transitions of the walk forwards, newest
first. It ends early where the zone has no transition from `first` on any more. -/
def walkBackward (zone : Queries) (first : Int) : Int → List Int → Walk Unit
  | _, [] => .done ()
  | millis, transition :: rest =>
    match zone.previous millis with
    | none => .failed .refused
    | some previous =>
      if previous = millis ∨ previous < first then .done ()
      else if previous = transition - 1 then walkBackward zone first previous rest
      else .defect (.reverseMismatch previous (transition - 1))

def walk (zone : Queries) (first last : Int) : Walk Unit :=
  match view? zone first with
  | none => .failed .refused
  | some view =>
    match walkForward zone last patience first view [] with
    | .done transitions => walkBackward zone first last transitions
    | .defect defect => .defect defect
    | .failed failure => .failed failure

end Verification

/-- A verifier for a range of years, with the number of zones that passed and failed. -/
structure Verifier where
  startYear : Int := 1850
  endYear : Int := 2050
  passed : Nat := 0
  failed : Nat := 0
  deriving DecidableEq, Repr

namespace Verifier

structure Outcome where
  verifier : Verifier
  verdict : Except Verification.Failure Bool
  messages : List Message := []

/-- Verifies a zone under an id. A zone of another id is an alias and passes unchecked. -/
def verify (verifier : Verifier) (zone : Queries) (id : Option String) : Outcome :=
  if id.any (· ≠ zone.id) then { verifier, verdict := .ok true }
  else
    match Verification.walk zone (Instant.startOfYear verifier.startYear)
        (Instant.startOfYear verifier.endYear) with
    | .done () =>
      { verifier := { verifier with passed := verifier.passed + 1 }, verdict := .ok true }
    | .defect defect =>
      { verifier := { verifier with failed := verifier.failed + 1 }
        verdict := .ok false
        messages := [.error (defect.message zone.id)] }
    | .failed failure => { verifier, verdict := .error failure }

def summary (verifier : Verifier) : List Message :=
  [.info ("Summary: Verified zones: passed=" ++ Text.paddedNat 0 verifier.passed ++ "; failed=" ++
    Text.paddedNat 0 verifier.failed)]

end Verifier

end CivilTime
