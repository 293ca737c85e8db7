import CivilTime.Tail
import CivilTime.Transition
import CivilTime.YearPoint

/-!
An era is a stretch of a timeline under one standard offset, with a fixed saving or with rules that
recur in a range of years, up to a cutover.

`Era.nextTransition` moves strictly forwards and stays before the limit year
(`nextTransition_bounds`), which is why the search for the state at the start of an era ends.
-/

namespace CivilTime

/-- A recurrence in the years from `fromYear` to `toYear`. -/
structure YearlyRule where
  recurrence : Recurrence
  fromYear : Int
  toYear : Int
  deriving DecidableEq, Repr

namespace YearlyRule

/-- The next occurrence after an instant, or an instant not after it if there is none in the years
of the rule. Years are those of wall time. -/
def next (rule : YearlyRule) (instant standardOffset save : Int) : Int :=
  let wallOffset := standardOffset + save
  let start :=
    if Instant.yearOf (instant + wallOffset) < rule.fromYear then
      -- One millisecond less, so that an occurrence at the very start of the year counts.
      Instant.startOfYear rule.fromYear - wallOffset - 1
    else instant
  let millis := rule.recurrence.point.next start standardOffset save
  if instant < millis ∧ rule.toYear < Instant.yearOf (millis + wallOffset) then instant
  else millis

end YearlyRule

structure FixedSaving where
  name : String
  save : Int
  deriving DecidableEq, Repr

structure Cutover where
  year : Int
  point : YearPoint
  deriving DecidableEq, Repr

structure Era where
  standardOffset : Int := 0
  fixed : Option FixedSaving := none
  rules : List YearlyRule := []
  cutover : Option Cutover := none
  deriving DecidableEq, Repr

namespace Era

def limitYear : Int := 2100

/-- The instant from which on no transition is computed. -/
def limit : Int := Instant.startOfYear limitYear

/-- Nothing is said about the state of the era. -/
def isEmpty (era : Era) : Bool :=
  era.fixed.isNone && era.rules.isEmpty

def upperLimit (era : Era) (save : Int) : Option Int :=
  era.cutover.map fun cutover => cutover.point.instantIn cutover.year era.standardOffset save

/-- The rules that occur again after an instant, each with its next occurrence. -/
def upcoming (era : Era) (rules : List YearlyRule) (instant save : Int) :
    List (Int × YearlyRule) :=
  (rules.map fun rule => (rule.next instant era.standardOffset save, rule)).filter
    fun candidate => instant < candidate.1

/-- The candidate with the least instant; of several, the last. -/
def soonest : List (Int × YearlyRule) → Option (Int × YearlyRule)
  | [] => none
  | candidate :: rest =>
    match soonest rest with
    | none => some candidate
    | some best => if best.1 ≤ candidate.1 then some best else some candidate

def stateOf (era : Era) (rule : YearlyRule) (millis : Int) : Transition :=
  { millis
    name := rule.recurrence.name
    wallOffset := era.standardOffset + rule.recurrence.save
    standardOffset := era.standardOffset }

/-- The first transition of the rules after an instant, if there is one before the limit and before
the cutover, and the rules that occur again. -/
def nextTransition (era : Era) (rules : List YearlyRule) (instant save : Int) :
    Option Transition × List YearlyRule :=
  let candidates := era.upcoming rules instant save
  let transition :=
    match soonest candidates with
    | none => none
    | some (millis, rule) =>
      if limit ≤ millis then none
      else
        match era.upperLimit save with
        | some upper => if upper ≤ millis then none else some (era.stateOf rule millis)
        | none => some (era.stateOf rule millis)
  (transition, candidates.map Prod.snd)

theorem soonest_mem {candidates : List (Int × YearlyRule)} {best : Int × YearlyRule}
    (h : soonest candidates = some best) : best ∈ candidates := by
  induction candidates generalizing best with
  | nil => simp [soonest] at h
  | cons candidate rest ih =>
    rw [soonest] at h
    split at h
    · simp_all
    · next found hfound =>
      split at h
      · exact List.mem_cons_of_mem _ (ih (by simp_all))
      · simp_all

/-- A transition that is found lies after the instant it is looked for from, and before the
limit. -/
theorem nextTransition_bounds {era : Era} {rules : List YearlyRule} {instant save : Int}
    {transition : Transition} (h : (era.nextTransition rules instant save).1 = some transition) :
    instant < transition.millis ∧ transition.millis < limit := by
  simp only [nextTransition] at h
  split at h
  · contradiction
  · next millis rule hsoonest =>
    have hafter : instant < millis := by
      have hmem := soonest_mem hsoonest
      simp only [upcoming, List.mem_filter, decide_eq_true_eq] at hmem
      exact hmem.2
    split at h
    · contradiction
    · next hlimit =>
      have hstate : era.stateOf rule millis = transition := by
        split at h
        · split at h
          · contradiction
          · simpa using h
        · simpa using h
      rw [← hstate]
      exact ⟨hafter, by simpa [stateOf] using hlimit⟩

/-- The state without saving that the first rule without saving names. -/
def defaultTransition (era : Era) (millis : Int) : Option Transition :=
  (era.rules.find? fun rule => rule.recurrence.save = 0).map fun rule => era.stateOf rule millis

/-- Follows the rules from `instant` on up to `start`. The answer is the state that the latest of
them brings about there. `state` is the one found so far; if no rule comes first, the state is the
default one, or that of the first rule without its saving. -/
def stateAtStart (era : Era) (start : Int) (rules : List YearlyRule) (instant save : Int)
    (state : Option Transition) : Option Transition :=
  match h : era.nextTransition rules instant save with
  | (none, _) => state <|> era.defaultTransition start
  | (some transition, remaining) =>
    if transition.millis = start then some (transition.movedTo start)
    else if start < transition.millis then
      state <|> era.defaultTransition start <|>
        some { transition with millis := start, wallOffset := era.standardOffset }
    else
      era.stateAtStart start remaining transition.millis transition.save
        (some (transition.movedTo start))
  termination_by (limit - instant).toNat
  decreasing_by
    have := @nextTransition_bounds era rules instant save transition (by rw [h])
    omega

/-- The state at the start of an era: the fixed one, or the one that the rules bring about. -/
def firstTransition (era : Era) (start : Int) : Option Transition :=
  match era.fixed with
  | some fixed =>
    some
      { millis := start
        name := fixed.name
        wallOffset := era.standardOffset + fixed.save
        standardOffset := era.standardOffset }
  | none => era.stateAtStart start era.rules Instant.earliest 0 none

/-- A tail, if exactly two rules are left, both recur forever and they switch between different
states. -/
def tail? (era : Era) : List YearlyRule → Option Tail
  | [starting, ending] =>
    if starting.toYear = Directive.foreverYear ∧ ending.toYear = Directive.foreverYear ∧
        (starting.recurrence.save ≠ ending.recurrence.save ∨
          starting.recurrence.name ≠ ending.recurrence.name) then
      some ⟨era.standardOffset, starting.recurrence, ending.recurrence⟩
    else none
  | _ => none

/-- Computing the era needs the days of a month that is none: of a rule, or of the cutover if the
era gets as far as to look at it. -/
def lacksMonth (era : Era) : Bool :=
  !era.isEmpty &&
    (era.rules.any (fun rule => !rule.recurrence.point.hasMonth) ||
      (era.cutover.any (fun cutover => !cutover.point.hasMonth) &&
        (era.fixed.isSome || era.rules.any (fun rule => rule.recurrence.save == 0) ||
          (soonest (era.upcoming era.rules Instant.earliest 0)).any
            (fun candidate => candidate.1 < limit))))

end Era

end CivilTime
