import CivilTime.Proofs.Seasons
import CivilTime.Proofs.YearBoundary

/-!
The timeline of a tail. Where both points stay in their year and the occurrences alternate, the
three questions that a tail answers are about one and the same sequence of occurrences: which of
them is the latest, which is the next, and just before which the state changed last.
-/

namespace CivilTime

theorem YearPoint.staysInYear_of_localMillis? {point : YearPoint}
    (h : ∀ year, (point.localMillis? year).map Instant.yearOf = some year) :
    point.hasMonth = true ∧ point.StaysInYear := by
  have hmonth : point.hasMonth = true := by
    by_contra hnone
    simpa [localMillis?, guarded, hnone] using h 0
  refine ⟨hmonth, fun year => ?_⟩
  simpa [localMillis?, guarded, hmonth] using h year

namespace Tail

variable {tail : Tail}

def Occurs (tail : Tail) (side : Side) (instant : Int) : Prop :=
  (tail.recurrence side).point.Occurs tail.standardOffset (tail.saveBefore side) instant

theorem occurs_iff (h : ∀ side, (tail.recurrence side).point.hasMonth = true) (side : Side)
    (instant : Int) : tail.Occurs side instant ↔ ∃ year, tail.occurrence side year = instant := by
  simp [Occurs, YearPoint.Occurs, YearPoint.instantIn?, YearPoint.guarded, h side, occurrence]

theorem guarded_of_hasMonth (h : ∀ side, (tail.recurrence side).point.hasMonth = true) {α : Type}
    (value : α) : tail.guarded value = some value := by
  have hstarting : tail.starting.point.hasMonth = true := h .starting
  have hending : tail.ending.point.hasMonth = true := h .ending
  simp [guarded, hasMonths, hstarting, hending]

/-- Alternating recurrences never occur at the same instant. -/
theorem Alternates.occurrence_ne (h : tail.Alternates) (side : Side) (year other : Int) :
    tail.occurrence side year ≠ tail.occurrence side.other other := by
  intro htie
  obtain ⟨between, hafter, hbefore⟩ := h side year
  obtain ⟨again, hagain, hlater⟩ := h side.other other
  rw [Side.other_other] at hagain hlater
  -- Each of the two would have to come up again before the other one does.
  have hown : year + 1 ≤ again :=
    (tail.occurrence_strictMono side).lt_iff_lt.mp (htie.trans_lt hagain)
  have hother : other + 1 ≤ between :=
    (tail.occurrence_strictMono side.other).lt_iff_lt.mp (htie.symm.trans_lt hafter)
  have hfirst := (tail.occurrence_strictMono side).monotone hown
  have hsecond := (tail.occurrence_strictMono side.other).monotone hother
  omega

structure Latest (tail : Tail) (side : Side) (year instant : Int) : Prop where
  reached : tail.occurrence side year ≤ instant
  greatest : ∀ other later, tail.occurrence other later ≤ instant →
    tail.occurrence other later ≤ tail.occurrence side year

theorem exists_latest (h : tail.StaysInYear) (instant : Int) :
    ∃ side year, tail.Latest side year instant ∧
      tail.previousTransition instant = tail.occurrence side year - 1 := by
  obtain ⟨⟨side, year, hprevious⟩, hbefore, hgreatest⟩ := tail.previousTransition_spec h instant
  refine ⟨side, year, ⟨by omega, fun other later hearlier => ?_⟩, hprevious⟩
  have hle := hgreatest other later hearlier
  omega

/-- What has occurred last is still the latest as long as nothing else occurs. -/
theorem Latest.until_next {side : Side} {year instant moment : Int}
    (h : tail.Latest side year instant) (hstays : tail.StaysInYear) (hlater : instant ≤ moment)
    (hbefore : moment < tail.nextTransition instant) : tail.Latest side year moment := by
  refine ⟨h.reached.trans hlater, fun other again hreached => ?_⟩
  apply h.greatest
  by_contra hafter
  have hnext := (tail.nextTransition_spec hstays instant).2.2 other again (not_le.mp hafter)
  omega

/-- The recurrence in effect is the one that has occurred last. -/
theorem Latest.current_eq {side : Side} {year instant : Int} (h : tail.Latest side year instant)
    (hstays : tail.StaysInYear) (halternates : tail.Alternates) :
    tail.current instant = tail.recurrence side := by
  refine Tail.current_eq hstays halternates h.reached fun between hafter => ?_
  by_contra hreached
  have hle := h.greatest side.other between (not_lt.mp hreached)
  omega

theorem previousTransition_nextTransition (h : tail.StaysInYear) (instant : Int) :
    tail.previousTransition (tail.nextTransition instant) = tail.nextTransition instant - 1 := by
  obtain ⟨⟨side, year, hnext⟩, -, -⟩ := tail.nextTransition_spec h instant
  obtain ⟨-, hbefore, hgreatest⟩ := tail.previousTransition_spec h (tail.nextTransition instant)
  have hlast := hgreatest side year hnext.ge
  omega

/-- The answers of a tail whose points stay in their year and whose occurrences alternate: in effect
is what has occurred last, alone; the next transition is the first occurrence to come; the previous
one stands just before the last. Up to the next transition nothing changes, and going back from
there leads just before it. -/
theorem queries_follow_occurrences (tail : Tail)
    (hyears : ∀ side year,
      ((tail.recurrence side).point.localMillis? year).map Instant.yearOf = some year)
    (halternates : tail.Alternates) (instant : Int) :
    ∃ side latest next,
      (tail.Occurs side latest ∧ ¬ tail.Occurs side.other latest) ∧
      IsGreatest {occurrence | (∃ side, tail.Occurs side occurrence) ∧ occurrence ≤ instant}
        latest ∧
      IsLeast {occurrence | (∃ side, tail.Occurs side occurrence) ∧ instant < occurrence} next ∧
      tail.current? instant = some (tail.recurrence side) ∧
      tail.nextTransition? instant = some next ∧
      tail.previousTransition? instant = some (latest - 1) ∧
      (∀ moment, instant ≤ moment → moment < next →
        tail.offsetAt? moment = some (tail.standardOffset + (tail.recurrence side).save) ∧
          tail.nameAt? moment = some (tail.recurrence side).name) ∧
      tail.previousTransition? next = some (next - 1) := by
  have hmonths := fun side => (YearPoint.staysInYear_of_localMillis? (hyears side)).1
  have hstays : tail.StaysInYear :=
    fun side => (YearPoint.staysInYear_of_localMillis? (hyears side)).2
  obtain ⟨side, year, hlatest, hprevious⟩ := exists_latest hstays instant
  obtain ⟨⟨nextSide, nextYear, hnext⟩, hafter, hleast⟩ := tail.nextTransition_spec hstays instant
  simp only [occurs_iff hmonths, current?, nextTransition?, previousTransition?, offsetAt?, nameAt?,
    guarded_of_hasMonth hmonths, Option.some.injEq]
  refine ⟨side, tail.occurrence side year, tail.nextTransition instant, ⟨⟨year, rfl⟩, ?_⟩,
    ⟨⟨⟨side, year, rfl⟩, hlatest.reached⟩, ?_⟩, ⟨⟨⟨nextSide, nextYear, hnext.symm⟩, hafter⟩, ?_⟩,
    hlatest.current_eq hstays halternates, rfl, hprevious, ?_,
    previousTransition_nextTransition hstays instant⟩
  · rintro ⟨other, hother⟩
    exact halternates.occurrence_ne side year other hother.symm
  · rintro occurrence ⟨⟨other, later, rfl⟩, hreached⟩
    exact hlatest.greatest other later hreached
  · rintro occurrence ⟨⟨other, later, rfl⟩, hlater⟩
    exact hleast other later hlater
  · intro moment hlater hbefore
    have hcurrent := (hlatest.until_next hstays hlater hbefore).current_eq hstays halternates
    rw [offsetAt, nameAt, hcurrent]
    exact ⟨rfl, rfl⟩

/-- Seasons that both begin on the first of March, in the hour of standard time between them. -/
theorem queries_follow_occurrences_in_march :
    let tail := ofSeasons 3600000 3 3
    (∀ side year,
      ((tail.recurrence side).point.localMillis? year).map Instant.yearOf = some year) ∧
    tail.Alternates ∧
    ∃ side latest next,
      (tail.Occurs side latest ∧ ¬ tail.Occurs side.other latest) ∧
      IsGreatest {occurrence | (∃ side, tail.Occurs side occurrence) ∧ occurrence ≤ 951868800000}
        latest ∧
      IsLeast {occurrence | (∃ side, tail.Occurs side occurrence) ∧ 951868800000 < occurrence}
        next ∧
      tail.current? 951868800000 = some (tail.recurrence side) ∧
      tail.nextTransition? 951868800000 = some next ∧
      tail.previousTransition? 951868800000 = some (latest - 1) ∧
      (∀ moment, 951868800000 ≤ moment → moment < next →
        tail.offsetAt? moment = some (tail.standardOffset + (tail.recurrence side).save) ∧
          tail.nameAt? moment = some (tail.recurrence side).name) ∧
      tail.previousTransition? next = some (next - 1) := by
  have hyears : ∀ side year, (((ofSeasons 3600000 3 3).recurrence side).point.localMillis? year).map
      Instant.yearOf = some year := by
    intro side year
    have hmarch : (1 : Int) ≤ 3 ∧ (3 : Int) ≤ 12 := by decide
    have hstays := ofSeasons_stays 3600000 hmarch hmarch side year
    cases side with
    | starting => exact congrArg some hstays
    | ending => exact congrArg some hstays
  have halternates := ofSeasons_alternates_same 3600000 3
  exact ⟨hyears, halternates,
    queries_follow_occurrences (ofSeasons 3600000 3 3) hyears halternates 951868800000⟩

end Tail

end CivilTime
