import CivilTime.Proofs.History
import CivilTime.Proofs.YearPoint
import CivilTime.Tail

/-!
The occurrences of a tail. Each of its two recurrences is located with the saving of the other.
Where the occurrences alternate, the recurrence in effect is the one that has occurred last.
-/

namespace CivilTime

namespace Tail

inductive Side where
  | starting
  | ending
  deriving DecidableEq, Repr

namespace Side

def other : Side → Side
  | starting => ending
  | ending => starting

def choose {α : Type} (first second : α) : Side → α
  | starting => first
  | ending => second

@[simp]
theorem other_other (side : Side) : side.other.other = side := by
  cases side <;> rfl

theorem eq_or_eq_other (side first : Side) : side = first ∨ side = first.other := by
  cases side <;> cases first <;> simp [other]

theorem forall_iff {P : Side → Prop} : (∀ side, P side) ↔ P starting ∧ P ending := by
  refine ⟨fun h => ⟨h starting, h ending⟩, fun h side => ?_⟩
  cases side with
  | starting => exact h.1
  | ending => exact h.2

instance {P : Side → Prop} [DecidablePred P] : Decidable (∀ side, P side) :=
  decidable_of_iff (P starting ∧ P ending) forall_iff.symm

theorem ne_other (side : Side) : side ≠ side.other := by
  cases side <;> simp [other]

end Side

def recurrence (tail : Tail) (side : Side) : Recurrence :=
  side.choose tail.starting tail.ending

def saveBefore (tail : Tail) (side : Side) : Int :=
  (tail.recurrence side.other).save

def occurrence (tail : Tail) (side : Side) (year : Int) : Int :=
  (tail.recurrence side).point.instantIn year tail.standardOffset (tail.saveBefore side)

def entry (tail : Tail) (side : Side) (millis : Int) : Transition :=
  { millis
    name := (tail.recurrence side).name
    wallOffset := tail.standardOffset + (tail.recurrence side).save
    standardOffset := tail.standardOffset }

def Brings (tail : Tail) (side : Side) (transition : Transition) : Prop :=
  transition = tail.entry side transition.millis

instance (tail : Tail) (side : Side) (transition : Transition) :
    Decidable (tail.Brings side transition) :=
  inferInstanceAs (Decidable (transition = tail.entry side transition.millis))

/-- Between two occurrences of one recurrence in a row there is one of the other. -/
def Alternates (tail : Tail) : Prop :=
  ∀ side year, ∃ between, tail.occurrence side year < tail.occurrence side.other between ∧
    tail.occurrence side.other between < tail.occurrence side (year + 1)

/-- The first recurrence never comes due at the very instant at which the second, already in effect,
would come up once more. -/
def Untied (tail : Tail) : Prop :=
  ∀ year again, tail.occurrence .starting year ≠
    tail.ending.point.instantIn again tail.standardOffset tail.ending.save

def StaysInYear (tail : Tail) : Prop :=
  ∀ side, (tail.recurrence side).point.StaysInYear

def Switches (tail : Tail) : Prop :=
  tail.starting.save ≠ tail.ending.save ∨ tail.starting.name ≠ tail.ending.name

theorem Switches.side_eq {tail : Tail} (h : tail.Switches) {first second : Side} {millis other : Int}
    (hsame : (tail.entry first millis).sameState (tail.entry second other) = true) :
    first = second := by
  rw [Switches] at h
  rw [Transition.sameState_iff] at hsame
  simp only [Tail.entry, Tail.recurrence] at hsame
  cases first <;> cases second <;> simp_all [Side.choose]

@[simp]
theorem entry_save (tail : Tail) (side : Side) (millis : Int) :
    (tail.entry side millis).save = (tail.recurrence side).save := by
  simp [entry, Transition.save]

theorem Brings.save_eq {tail : Tail} {side : Side} {transition : Transition}
    (h : tail.Brings side transition) : transition.save = (tail.recurrence side).save := by
  rw [h, entry_save]

theorem occurrence_strictMono (tail : Tail) (side : Side) : StrictMono (tail.occurrence side) :=
  (tail.recurrence side).point.instantIn_strictMono tail.standardOffset (tail.saveBefore side)

/-- It is enough to find each occurrence of the second recurrence between two of the first. -/
theorem alternates_of_between {tail : Tail} (lag : Int)
    (h : ∀ year, tail.occurrence .starting year < tail.occurrence .ending (year + lag) ∧
      tail.occurrence .ending (year + lag) < tail.occurrence .starting (year + 1)) :
    tail.Alternates := by
  intro side year
  cases side with
  | starting => exact ⟨year + lag, h year⟩
  | ending =>
    have hthis := (h (year - lag)).2
    have hnext := (h (year - lag + 1)).1
    rw [sub_add_cancel] at hthis
    rw [show year - lag + 1 + lag = year + 1 by omega] at hnext
    exact ⟨year - lag + 1, hthis, hnext⟩

def nextOf (tail : Tail) (side : Side) (instant : Int) : Int :=
  (tail.recurrence side).point.next instant tail.standardOffset (tail.saveBefore side)

/-- The recurrence in effect is the one whose next occurrence comes after that of the other. -/
theorem current_eq_of_lt {tail : Tail} {side : Side} {instant : Int}
    (h : tail.nextOf side.other instant < tail.nextOf side instant) :
    tail.current instant = tail.recurrence side := by
  cases side with
  | starting => exact if_pos h
  | ending => exact if_neg (not_lt.mpr h.le)

/-- Once a recurrence has occurred, it is in effect until the other one occurs. -/
theorem current_eq {tail : Tail} (hstays : tail.StaysInYear) (halternates : tail.Alternates)
    {side : Side} {year instant : Int} (hreached : tail.occurrence side year ≤ instant)
    (hquiet : ∀ between, tail.occurrence side year < tail.occurrence side.other between →
      instant < tail.occurrence side.other between) :
    tail.current instant = tail.recurrence side := by
  obtain ⟨between, hafter, hbefore⟩ := halternates side year
  have hother : tail.nextOf side.other instant ≤ tail.occurrence side.other between :=
    (hstays side.other).next_le instant _ _ (hquiet between hafter)
  obtain ⟨again, hagain⟩ := (tail.recurrence side).point.exists_next_eq instant
    tail.standardOffset (tail.saveBefore side)
  have hlater : year + 1 ≤ again := by
    have hnext := (hstays side).lt_next instant tail.standardOffset (tail.saveBefore side)
    have hlt : tail.occurrence side year < tail.occurrence side again :=
      hreached.trans_lt (hnext.trans_eq hagain)
    exact (tail.occurrence_strictMono side).lt_iff_lt.mp hlt
  have hsame : tail.occurrence side (year + 1) ≤ tail.nextOf side instant :=
    ((tail.occurrence_strictMono side).monotone hlater).trans hagain.ge
  exact current_eq_of_lt (hother.trans_lt (hbefore.trans_le hsame))

/-- Between any two occurrences of one recurrence there is one of the other. -/
theorem exists_between {tail : Tail} (h : tail.Alternates) {side : Side} {first second : Int}
    (hlt : tail.occurrence side first < tail.occurrence side second) :
    ∃ between, tail.occurrence side first < tail.occurrence side.other between ∧
      tail.occurrence side.other between < tail.occurrence side second := by
  obtain ⟨between, hafter, hbefore⟩ := h side first
  have hyears : first + 1 ≤ second := (tail.occurrence_strictMono side).lt_iff_lt.mp hlt
  exact ⟨between, hafter,
    hbefore.trans_le ((tail.occurrence_strictMono side).monotone hyears)⟩

/-- The next transition is the first occurrence after an instant. -/
theorem nextTransition_spec {tail : Tail} (h : tail.StaysInYear) (instant : Int) :
    (∃ side year, tail.nextTransition instant = tail.occurrence side year) ∧
      instant < tail.nextTransition instant ∧
      ∀ side year, instant < tail.occurrence side year →
        tail.nextTransition instant ≤ tail.occurrence side year := by
  have hnext : tail.nextTransition instant =
      min (tail.nextOf .starting instant) (tail.nextOf .ending instant) := rfl
  rw [hnext]
  refine ⟨?_, ?_, fun side year hlater => ?_⟩
  · rcases min_choice (tail.nextOf .starting instant) (tail.nextOf .ending instant) with
      hstart | hend
    · rw [hstart]
      exact ⟨.starting, (tail.recurrence .starting).point.exists_next_eq instant _ _⟩
    · rw [hend]
      exact ⟨.ending, (tail.recurrence .ending).point.exists_next_eq instant _ _⟩
  · exact lt_min ((h .starting).lt_next instant _ _) ((h .ending).lt_next instant _ _)
  · have hle : tail.nextOf side instant ≤ tail.occurrence side year :=
      (h side).next_le instant _ _ hlater
    cases side with
    | starting => exact (min_le_left _ _).trans hle
    | ending => exact (min_le_right _ _).trans hle

def previousOf (tail : Tail) (side : Side) (instant : Int) : Int :=
  (tail.recurrence side).point.previous instant tail.standardOffset (tail.saveBefore side)

/-- The previous transition stands just before the last occurrence that is not after an instant. -/
theorem previousTransition_spec {tail : Tail} (h : tail.StaysInYear) (instant : Int) :
    (∃ side year, tail.previousTransition instant = tail.occurrence side year - 1) ∧
      tail.previousTransition instant < instant ∧
      ∀ side year, tail.occurrence side year ≤ instant →
        tail.occurrence side year - 1 ≤ tail.previousTransition instant := by
  have hprevious : tail.previousTransition instant =
      max (tail.previousOf .starting (instant + 1)) (tail.previousOf .ending (instant + 1)) - 1 :=
    rfl
  rw [hprevious]
  refine ⟨?_, ?_, fun side year hearlier => ?_⟩
  · rcases max_choice (tail.previousOf .starting (instant + 1))
      (tail.previousOf .ending (instant + 1)) with hstart | hend
    · obtain ⟨year, hyear⟩ :=
        (tail.recurrence .starting).point.exists_previous_eq (instant + 1) _ _
      exact ⟨.starting, year, by rw [hstart]; exact congrArg (· - 1) hyear⟩
    · obtain ⟨year, hyear⟩ :=
        (tail.recurrence .ending).point.exists_previous_eq (instant + 1) _ _
      exact ⟨.ending, year, by rw [hend]; exact congrArg (· - 1) hyear⟩
  · have hstart : tail.previousOf .starting (instant + 1) < instant + 1 :=
      (h .starting).previous_lt (instant + 1) _ _
    have hend : tail.previousOf .ending (instant + 1) < instant + 1 :=
      (h .ending).previous_lt (instant + 1) _ _
    have hmax := max_lt hstart hend
    omega
  · have hle : tail.occurrence side year ≤ tail.previousOf side (instant + 1) :=
      (h side).le_previous (instant + 1) _ _ (Int.lt_add_one_of_le hearlier)
    refine sub_le_sub_right (hle.trans ?_) 1
    cases side with
    | starting => exact le_max_left _ _
    | ending => exact le_max_right _ _

end Tail

end CivilTime
