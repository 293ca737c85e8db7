import CivilTime.Proofs.Era
import CivilTime.Proofs.YearBoundary

/-!
The years of a rule. A rule looks at the years of wall time, also where its point is read on another
clock. If the point lies in its year on both clocks, the rule occurs in each of its years and in no
other, and the search from any instant answers the first of these occurrences that is still to come.
-/

namespace CivilTime

namespace YearPoint

/-- The point lies, on the wall clock, in the year for which it is computed. -/
def StaysInWallYear (point : YearPoint) (standardOffset save : Int) : Prop :=
  ∀ year, Instant.yearOf (point.instantIn year standardOffset save + (standardOffset + save)) = year

/-- On the wall clock a point has the same date at another time of day. -/
theorem staysInWallYear_iff (point : YearPoint) (standardOffset save : Int) :
    point.StaysInWallYear standardOffset save ↔
      StaysInYear { point with
        millisOfDay := point.millisOfDay - point.offset standardOffset save +
          (standardOffset + save) } := by
  refine forall_congr' fun year => ?_
  have hmillis : point.instantIn year standardOffset save + (standardOffset + save) =
      point.millisOfDay - point.offset standardOffset save + (standardOffset + save) +
        (point.localMillis year - point.millisOfDay) := by
    rw [instantIn]
    ring
  rw [localMillis_atTime, hmillis]

end YearPoint

namespace YearlyRule

def Occurs (rule : YearlyRule) (standardOffset save instant : Int) : Prop :=
  ∃ year, (rule.fromYear ≤ year ∧ year ≤ rule.toYear) ∧
    rule.recurrence.point.instantIn year standardOffset save = instant

section

variable {rule : YearlyRule} {standardOffset save : Int}
  (hstays : rule.recurrence.point.StaysInYear)
  (hwall : rule.recurrence.point.StaysInWallYear standardOffset save)

include hwall

/-- Where the rule begins to look, all its years and no earlier one are still to come. -/
theorem start_lt_instantIn_iff (instant year : Int) :
    max instant (Instant.startOfYear rule.fromYear - (standardOffset + save) - 1) <
        rule.recurrence.point.instantIn year standardOffset save ↔
      instant < rule.recurrence.point.instantIn year standardOffset save ∧
        rule.fromYear ≤ year := by
  have hyear := Instant.le_yearOf_iff
    (rule.recurrence.point.instantIn year standardOffset save + (standardOffset + save))
    rule.fromYear
  rw [hwall year] at hyear
  rw [hyear]
  omega

include hstays

/-- The search finds the first occurrence to come, or there is none and it stays where it is. -/
theorem next_isLeast_or_eq (instant : Int) :
    IsLeast {occurrence | rule.Occurs standardOffset save occurrence ∧ instant < occurrence}
        (rule.next instant standardOffset save) ∨
      (∀ occurrence, rule.Occurs standardOffset save occurrence → occurrence ≤ instant) ∧
        rule.next instant standardOffset save = instant := by
  obtain ⟨⟨⟨year, hyear⟩, hlater⟩, hleast⟩ := hstays.next_isLeast
    (max instant (Instant.startOfYear rule.fromYear - (standardOffset + save) - 1))
    standardOffset save
  rw [next_eq]
  dsimp only
  rw [← hyear] at hlater hleast ⊢
  obtain ⟨hafter, hfrom⟩ := (start_lt_instantIn_iff hwall instant year).mp hlater
  rw [hwall year]
  by_cases hto : rule.toYear < year
  · rw [if_pos ⟨hafter, hto⟩]
    refine Or.inr ⟨?_, rfl⟩
    rintro occurrence ⟨other, ⟨hotherFrom, hotherTo⟩, rfl⟩
    by_contra hcoming
    have hle := hleast ⟨⟨other, rfl⟩,
      (start_lt_instantIn_iff hwall instant other).mpr ⟨not_le.mp hcoming, hotherFrom⟩⟩
    have hyears := (rule.recurrence.point.instantIn_strictMono standardOffset save).le_iff_le.mp hle
    omega
  · rw [if_neg fun h => hto h.2]
    refine Or.inl ⟨⟨⟨year, ⟨hfrom, not_lt.mp hto⟩, rfl⟩, hafter⟩, ?_⟩
    rintro occurrence ⟨⟨other, ⟨hotherFrom, -⟩, rfl⟩, hcoming⟩
    exact hleast ⟨⟨other, rfl⟩,
      (start_lt_instantIn_iff hwall instant other).mpr ⟨hcoming, hotherFrom⟩⟩

end

/-- A rule whose point lies in its year, on its own clock and on the wall clock, occurs in exactly
its years. From every instant the search answers the first occurrence after it, and the instant
itself if there is none. -/
theorem next_within_years (rule : YearlyRule) (standardOffset save : Int)
    (hstays : rule.recurrence.point.StaysInYear)
    (hwall : rule.recurrence.point.StaysInWallYear standardOffset save) (instant : Int) :
    ((∃ occurrence, rule.Occurs standardOffset save occurrence ∧ instant < occurrence) →
        IsLeast {occurrence | rule.Occurs standardOffset save occurrence ∧ instant < occurrence}
          (rule.next instant standardOffset save)) ∧
      ((¬ ∃ occurrence, rule.Occurs standardOffset save occurrence ∧ instant < occurrence) →
        rule.next instant standardOffset save = instant) := by
  rcases next_isLeast_or_eq hstays hwall instant with hleast | ⟨hnone, hsame⟩
  · exact ⟨fun _ => hleast, fun hnone => absurd ⟨_, hleast.1⟩ hnone⟩
  · refine ⟨?_, fun _ => hsame⟩
    rintro ⟨occurrence, hoccurs, hlater⟩
    exact absurd (hnone occurrence hoccurs) (not_le.mpr hlater)

def springRule : YearlyRule where
  recurrence :=
    { point :=
        { clock := .universal, month := 3, day := -1, weekday := 7, millisOfDay := 3600000 }
      name := "CEST"
      save := 3600000 }
  fromYear := 1996
  toYear := 1997

theorem springRule_stays : springRule.recurrence.point.StaysInYear ∧
    springRule.recurrence.point.StaysInWallYear 3600000 0 := by
  rw [YearPoint.staysInWallYear_iff]
  constructor
  all_goals
    apply YearPoint.InRange.staysInYear
    · constructor <;> decide
    · simp [YearPoint.RunsPastYear, springRule]
    · simp [YearPoint.RunsBeforeYear, springRule]

/-- The rule first occurs in 1996, and no more after its occurrence of 1997. -/
theorem next_within_years_in_spring :
    (springRule.recurrence.point.StaysInYear ∧
        springRule.recurrence.point.StaysInWallYear 3600000 0) ∧
      IsLeast {occurrence | springRule.Occurs 3600000 0 occurrence ∧ 0 < occurrence}
        828234000000 ∧
      springRule.next 859683600000 3600000 0 = 859683600000 := by
  obtain ⟨hstays, hwall⟩ := springRule_stays
  refine ⟨⟨hstays, hwall⟩, ?_, ?_⟩
  · have hfirst : springRule.next 0 3600000 0 = 828234000000 := by decide +kernel
    rw [← hfirst]
    apply (next_within_years springRule 3600000 0 hstays hwall 0).1
    exact ⟨828234000000, ⟨1996, by decide, by decide +kernel⟩, by decide⟩
  · apply (next_within_years springRule 3600000 0 hstays hwall 859683600000).2
    rintro ⟨occurrence, ⟨year, ⟨-, hto⟩, rfl⟩, hlater⟩
    have hlast : springRule.recurrence.point.instantIn 1997 3600000 0 = 859683600000 := by
      decide +kernel
    have hmono := (springRule.recurrence.point.instantIn_strictMono 3600000 0).monotone hto
    exact absurd (hmono.trans hlast.le) (not_le.mpr hlater)

end YearlyRule

end CivilTime
