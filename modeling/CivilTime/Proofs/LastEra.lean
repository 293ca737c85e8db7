import CivilTime.Proofs.Firing

/-!
The last era of a draft, where a tail may be attached. A simulation arrives at it in the same way
with and without tails, opens it with a state of its own, and goes on by the firings of that era.
-/

namespace CivilTime

namespace Progress

theorem follow_tail_of_disallowed {era : Era} {rules : List YearlyRule} {progress : Progress}
    (h : progress.tail = none) : (follow era false rules progress).tail = none := by
  fun_induction follow era false rules progress with
  | case1 rules progress remaining hnext => exact h
  | case2 rules progress transition remaining hnext hjoined => exact h
  | case3 rules progress transition remaining hnext hjoined ih =>
    apply ih
    simpa using h

theorem skip_tail (progress : Progress) : progress.skip.tail = progress.tail := by
  rw [skip]
  split
  · rfl
  · split <;> rfl

theorem walk_tail_of_disallowed {eras : List Era} {progress : Progress}
    (h : progress.tail = none) : (walk false eras progress).tail = none := by
  induction eras generalizing progress with
  | nil => exact h
  | cons era rest ih =>
    rw [walk]
    split
    · exact ih ((skip_tail progress).trans h)
    · split
      · exact ih h
      · next first hfirst =>
        have henter : (progress.enter era false first).tail = none := follow_tail_of_disallowed h
        dsimp only [Bool.false_and]
        split
        · exact henter
        · exact ih henter

/-- Closed eras are walked through in the same way whether a tail may be attached later or not. -/
theorem walk_concat {eras : List Era} (hclosed : ∀ era ∈ eras, era.cutover.isSome = true)
    (tails : Bool) (last : Era) (progress : Progress) :
    walk tails (eras ++ [last]) progress = walk tails [last] (walk false eras progress) := by
  induction eras generalizing progress with
  | nil => rfl
  | cons era rest ih =>
    obtain ⟨cutover, hcutover⟩ := Option.isSome_iff_exists.mp (hclosed era (by simp))
    have hrest := ih fun era hera => hclosed era (by simp [hera])
    have hopen : (tails && (rest ++ [last]).isEmpty) = false := by simp
    rw [List.cons_append, walk, hopen, walk.eq_2 false progress era rest, Bool.false_and]
    simp only [Era.upperLimit, hcutover, Option.map_some, hrest]
    split
    · rfl
    · split <;> rfl

end Progress

namespace Draft

def lastEra (draft : Draft) : Era :=
  draft.eras.getLastD {}

/-- The timeline as it stands where the last era begins. -/
def arrival (draft : Draft) : Progress :=
  Progress.walk false draft.eras.dropLast {}

def opening? (draft : Draft) : Option Transition :=
  if draft.lastEra.isEmpty then none else draft.lastEra.firstTransition draft.arrival.millis

def OpensLater (draft : Draft) : Prop :=
  ∀ first ∈ draft.opening?, ∀ entry ∈ draft.arrival.history, entry.millis < first.millis

instance (draft : Draft) : Decidable draft.OpensLater :=
  inferInstanceAs (Decidable (∀ first ∈ draft.opening?, ∀ entry ∈ draft.arrival.history,
    entry.millis < first.millis))

def opened (draft : Draft) (first : Transition) : Progress :=
  ⟨(draft.arrival.history.push first).1, none, first.millis, first.save⟩

/-- Every occurrence of a rule in the last era, up to the limit. -/
def lastFirings (draft : Draft) : List Firing :=
  match draft.opening? with
  | none => []
  | some first =>
    draft.lastEra.firings draft.lastEra.rules (draft.opened first).history first

/-- The firings of the last era from the one on that leaves the two rules of a tail. -/
def tailFirings (draft : Draft) (tail : Tail) : List Firing :=
  draft.lastFirings.dropWhile fun firing => draft.lastEra.tail? firing.remaining ≠ some tail

theorem tailFirings_subset (draft : Draft) (tail : Tail) :
    draft.tailFirings tail ⊆ draft.lastFirings :=
  (List.dropWhile_sublist _).subset

theorem lastFirings_eq {draft : Draft} {first : Transition} (h : draft.opening? = some first) :
    draft.lastFirings =
      draft.lastEra.firings draft.lastEra.rules (draft.opened first).history first := by
  simp [lastFirings, h]

theorem exists_opening {draft : Draft} {firing : Firing} (h : firing ∈ draft.lastFirings) :
    ∃ first, draft.opening? = some first ∧
      firing ∈ draft.lastEra.firings draft.lastEra.rules (draft.opened first).history first := by
  cases hfirst : draft.opening? with
  | none => simp [lastFirings, hfirst] at h
  | some first =>
    rw [lastFirings_eq hfirst] at h
    exact ⟨first, rfl, h⟩

theorem OpensLater.shows {draft : Draft} (h : draft.OpensLater) {firing : Firing}
    (hfiring : firing ∈ draft.lastFirings) : firing.history.Shows firing.last := by
  obtain ⟨first, hfirst, hmem⟩ := exists_opening hfiring
  exact Era.firings_shows (History.push_shows (h first hfirst)) hmem

theorem LaidOut.lastEra_open {draft : Draft} (h : draft.LaidOut) :
    draft.lastEra.cutover = none := by
  rcases h with hnil | ⟨earlier, last, heras, -, hlast⟩
  · simp [lastEra, hnil]
  · simpa [lastEra, heras] using hlast

/-- A simulation arrives at the last era, opens it and takes its firings. Where there is nothing to
open, it ends without a tail. -/
theorem LaidOut.simulate_cases {draft : Draft} (h : draft.LaidOut) (tails : Bool) :
    (draft.opening? = none ∧ (draft.simulate tails).tail = none) ∨
      ∃ first, draft.opening? = some first ∧
        draft.simulate tails =
          Progress.replay draft.lastEra tails draft.lastFirings (draft.opened first) := by
  rcases h with hnil | ⟨earlier, last, heras, hclosed, hlast⟩
  · exact Or.inl ⟨by simp [opening?, lastEra, hnil, Era.isEmpty],
      by simp [simulate, hnil, Progress.walk]⟩
  have hlastEra : draft.lastEra = last := by simp [lastEra, heras]
  have harrival : draft.arrival = Progress.walk false earlier {} := by simp [arrival, heras]
  have htail : draft.arrival.tail = none := Progress.walk_tail_of_disallowed rfl
  have hsimulate : draft.simulate tails = Progress.walk tails [last] draft.arrival := by
    rw [simulate, heras, Progress.walk_concat hclosed, harrival]
  rw [hsimulate, Progress.walk]
  split
  · next hempty =>
    exact Or.inl ⟨by simp [opening?, hlastEra, hempty], (Progress.skip_tail _).trans htail⟩
  · next hfilled =>
    split
    · next hnone => exact Or.inl ⟨by simp [opening?, hlastEra, hfilled, hnone], htail⟩
    · next first hfirst =>
      have hopening : draft.opening? = some first := by
        simp [opening?, hlastEra, hfilled, hfirst]
      refine Or.inr ⟨first, hopening, ?_⟩
      simp only [Era.upperLimit, hlast, Option.map_none, List.isEmpty_nil, Bool.and_true]
      rw [Progress.enter, htail, Progress.follow_eq_replay, lastFirings_eq hopening, hlastEra]
      rfl

/-- Without a tail the timeline goes on after each of the firings that a tail would stand for. -/
theorem LaidOut.simulate_plain {draft : Draft} (h : draft.LaidOut) {tail : Tail}
    {before after : List Firing} {firing : Firing}
    (hsplit : draft.tailFirings tail = before ++ firing :: after) :
    (draft.simulate false).tail = none ∧
      (draft.simulate false).history = Firing.outcome firing.after after := by
  have hmem := draft.tailFirings_subset tail (show firing ∈ draft.tailFirings tail by
    simp [hsplit])
  rcases h.simulate_cases false with ⟨hnone, -⟩ | ⟨first, -, hsimulate⟩
  · simp [lastFirings, hnone] at hmem
  · obtain ⟨earlier, hearlier⟩ : ∃ earlier,
        draft.lastFirings = earlier ++ draft.tailFirings tail :=
      ⟨_, List.takeWhile_append_dropWhile.symm⟩
    rw [hsplit, ← List.append_assoc] at hearlier
    obtain ⟨htail, hall⟩ := Progress.replay_plain draft.lastEra draft.lastFirings
      (show (draft.opened first).tail = none from rfl)
    rw [hsimulate]
    refine ⟨htail, ?_⟩
    rw [hall, hearlier, Firing.outcome_append]

theorem zoneOf_back? (id : String) {progress : Progress} {newest : Transition}
    (h : newest ∈ progress.history.head?) :
    (zoneOf id progress).transitions.back? = some newest := by
  obtain ⟨older, hhistory⟩ : ∃ older, progress.history = newest :: older := by
    simpa [List.head?_eq_some_iff] using h
  simp [zoneOf, hhistory]

theorem back?_of_added (id : String) {draft : Draft} {firing : Firing}
    (hadded : firing.added = true) (hhistory : (draft.simulate true).history = firing.after) :
    (draft.toTimeZone id).transitions.back? = some firing.transition := by
  obtain ⟨kept, hkept⟩ := Firing.after_of_added hadded
  exact zoneOf_back? id (by rw [hhistory, hkept]; rfl)

end Draft

end CivilTime
