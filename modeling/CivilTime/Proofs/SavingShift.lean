import CivilTime.Proofs.Firing
import CivilTime.Proofs.OffsetNames
import Mathlib.Data.List.Forall2

/-!
Rules whose savings are shifted. If a saving of a set is negative, the lowest is added to the
standard offset and taken off every rule, so what a rule adds up to with the standard offset stays
the same. So wherever an era with the shifted rules is followed, each firing of a rule leaves the
offset that the rule was written for, and a tail that is attached goes on with such offsets.
-/

namespace CivilTime

def YearlyRule.directive (rule : YearlyRule) : Directive :=
  .recurringSaving rule.recurrence rule.fromYear rule.toYear

namespace Source

/-- The rule of an era stands for a rule under another standard offset: at the same point, in the
same years and with the same sum of standard offset and saving, where the saving is not negative. -/
structure Rule.Becomes (standardOffset shifted : Int) (rule : Rule) (yearly : YearlyRule) :
    Prop where
  point : yearly.recurrence.point = rule.point
  fromYear : yearly.fromYear = rule.fromYear
  toYear : yearly.toYear = rule.toYear
  total : shifted + yearly.recurrence.save = standardOffset + rule.save
  saving : 0 ≤ yearly.recurrence.save

theorem Rule.yearly_becomes {rule : Rule} {lowest : Int} (h : lowest ≤ rule.save)
    (standardOffset : Int) (format : String) :
    rule.Becomes standardOffset (standardOffset + lowest)
      (rule.yearly lowest format (standardOffset + lowest)) := by
  refine ⟨rfl, rfl, rfl, ?_, ?_⟩
  · simp only [yearly]
    omega
  · simp only [yearly]
    omega

theorem Rule.Becomes.wallOffset {standardOffset : Int} {rule : Rule} {yearly : YearlyRule}
    {era : Era} (h : rule.Becomes standardOffset era.standardOffset yearly) {firing : Firing}
    (hfiring : firing.OfRule era yearly) :
    firing.transition.wallOffset = standardOffset + rule.save := by
  rw [hfiring.state]
  exact h.total

namespace RuleSet

theorem lowestSave_neg_iff (set : RuleSet) :
    set.lowestSave < 0 ↔ ∃ rule ∈ set.rules, rule.save < 0 := by
  constructor
  · intro hnegative
    obtain ⟨rule, hrule, hsave⟩ := set.lowestSave_cases.resolve_left hnegative.ne
    exact ⟨rule, hrule, hsave.trans_lt hnegative⟩
  · rintro ⟨rule, hrule, hnegative⟩
    exact (set.lowestSave_le.2 rule hrule).trans_lt hnegative

variable (set : RuleSet) (standardOffset : Int) (format : String)

def shiftedRules : List YearlyRule :=
  set.resolvedRules.map fun rule =>
    rule.yearly set.lowestSave (set.resolvedFormat format) (standardOffset + set.lowestSave)

theorem directives_eq_shiftedRules :
    set.directives standardOffset format =
      .standardOffset (standardOffset + set.lowestSave) ::
        (set.shiftedRules standardOffset format).map YearlyRule.directive := by
  rw [directives_eq, shiftedRules, List.map_map]
  rfl

theorem lowestSave_le_of_resolved {set : RuleSet} {rule : Rule} (h : rule ∈ set.resolvedRules) :
    set.lowestSave ≤ rule.save := by
  rcases mem_resolvedRules h with hown | rfl
  · exact set.lowestSave_le.2 rule hown
  · exact set.lowestSave_le.1

def era : Era :=
  (set.directives standardOffset format).foldl Era.configure {}

section Segment

variable {set standardOffset format} {cutover : Option Cutover} {history : History}
  {last : Transition}

end Segment

end RuleSet

end Source

end CivilTime
