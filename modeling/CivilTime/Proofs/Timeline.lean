import CivilTime.Proofs.Era
import CivilTime.Proofs.Layout

/-!
The invariant of a timeline in the making: its history is in order, begins no earlier than the
earliest instant, and stays empty only while that instant has not been left. Every step of the walk
through the eras keeps it.
-/

namespace CivilTime

namespace Progress

structure Sound (progress : Progress) : Prop where
  ordered : progress.history.Ordered
  bounded : ∀ entry ∈ progress.history, Instant.earliest ≤ entry.millis
  atStart : progress.history = [] → progress.millis = Instant.earliest

theorem start_sound : Sound {} :=
  ⟨List.IsChain.nil, by simp, fun _ => rfl⟩

/-- Pushing keeps a timeline sound, wherever it goes on from, if the transition does not lie
before the instant reached. -/
theorem Sound.push {progress next : Progress} (h : progress.Sound) (transition : Transition)
    (hlater : progress.millis ≤ transition.millis)
    (hhistory : next.history = (progress.history.push transition).1) : next.Sound := by
  refine ⟨?_, ?_, ?_⟩
  · rw [hhistory]
    exact History.push_ordered h.ordered transition
  · rw [hhistory]
    refine History.push_bounded h.bounded ?_
    intro hempty
    rw [← h.atStart hempty]
    exact hlater
  · intro hempty
    exact absurd (hhistory ▸ hempty) (History.push_ne_nil progress.history transition)

theorem follow_sound {era : Era} {tailAllowed : Bool} {rules : List YearlyRule}
    {progress : Progress} (h : progress.Sound) :
    (follow era tailAllowed rules progress).Sound := by
  fun_induction follow era tailAllowed rules progress with
  | case1 rules progress remaining hnext => exact h
  | case2 rules progress transition remaining hnext hjoined =>
    have hbounds := Era.nextTransition_bounds (congrArg Prod.fst hnext)
    exact h.push transition hbounds.1.le rfl
  | case3 rules progress transition remaining hnext hjoined ih =>
    have hbounds := Era.nextTransition_bounds (congrArg Prod.fst hnext)
    exact ih (h.push transition hbounds.1.le rfl)

theorem skip_sound {progress : Progress} (h : progress.Sound) : progress.skip.Sound := by
  rw [skip]
  split
  · exact h
  · next last older hhistory =>
    split
    · exact h.push { last with millis := progress.millis, name := undefinedName } le_rfl
        (by rw [hhistory])
    · exact h

theorem follow_history_ne_nil {era : Era} {tailAllowed : Bool} {rules : List YearlyRule}
    {progress : Progress} (h : progress.history ≠ []) :
    (follow era tailAllowed rules progress).history ≠ [] := by
  fun_induction follow era tailAllowed rules progress with
  | case1 rules progress remaining hnext => exact h
  | case2 rules progress transition remaining hnext hjoined =>
    exact History.push_ne_nil progress.history transition
  | case3 rules progress transition remaining hnext hjoined ih =>
    exact ih (History.push_ne_nil progress.history transition)

/-- Once an era has been entered, the timeline has a transition, so the next era may begin
anywhere. -/
theorem enter_sound {progress : Progress} {era : Era} {first : Transition} (tailAllowed : Bool)
    (h : progress.Sound) (hfirst : era.firstTransition progress.millis = some first)
    (millis : Int) : Sound { progress.enter era tailAllowed first with millis } := by
  have hsound : (progress.enter era tailAllowed first).Sound :=
    follow_sound (h.push first (Era.firstTransition_millis hfirst).ge rfl)
  have hfilled : (progress.enter era tailAllowed first).history ≠ [] :=
    follow_history_ne_nil (History.push_ne_nil progress.history first)
  exact ⟨hsound.ordered, hsound.bounded, fun hempty => absurd hempty hfilled⟩

theorem walk_sound {tails : Bool} {eras : List Era} {progress : Progress} (h : progress.Sound) :
    (walk tails eras progress).Sound := by
  induction eras generalizing progress with
  | nil => exact h
  | cons era rest ih =>
    rw [walk]
    split
    · exact ih (skip_sound h)
    · split
      · exact ih h
      · next first hfirst =>
        dsimp only
        split
        · exact enter_sound (tails && rest.isEmpty) h hfirst _
        · exact ih (enter_sound (tails && rest.isEmpty) h hfirst _)

end Progress

/-- What can be relied on about the transitions of a zone: there is one, none lies before the
earliest instant, they run strictly forwards, and each changes the state of the one before it. -/
structure TimeZone.Orderly (zone : TimeZone) : Prop where
  nonempty : zone.transitions.toList ≠ []
  bounded : ∀ transition ∈ zone.transitions.toList, Instant.earliest ≤ transition.millis
  increasing :
    zone.transitions.toList.Pairwise (fun earlier later => earlier.millis < later.millis)
  changing : zone.transitions.toList.IsChain (fun earlier later =>
    earlier.wallOffset ≠ later.wallOffset ∨ earlier.standardOffset ≠ later.standardOffset ∨
      earlier.name ≠ later.name)

namespace Draft

theorem simulate_sound (draft : Draft) (tails : Bool) : (draft.simulate tails).Sound :=
  Progress.walk_sound Progress.start_sound

/-- The zone of a sound timeline is orderly, whether the timeline has a transition or not. -/
theorem zoneOf_orderly (id : String) {progress : Progress} (h : progress.Sound) :
    (zoneOf id progress).Orderly := by
  obtain ⟨history, htransitions, hfilled, hordered, hbounded⟩ : ∃ history : History,
      (zoneOf id progress).transitions.toList = history.reverse ∧ history ≠ [] ∧
        history.Ordered ∧ ∀ entry ∈ history, Instant.earliest ≤ entry.millis := by
    by_cases hempty : progress.history = []
    · exact ⟨[universalTime], by simp [zoneOf, hempty], by simp, List.IsChain.singleton _,
        by simp [universalTime]⟩
    · exact ⟨progress.history, by simp [zoneOf, hempty], hempty, h.ordered, h.bounded⟩
  refine ⟨?_, ?_, ?_, ?_⟩
  · simpa [htransitions] using hfilled
  · simpa [htransitions] using hbounded
  · rw [htransitions]
    exact hordered.increasing
  · rw [htransitions]
    exact hordered.changing

/-- Directives in any order, with any offsets, savings, years and days, lead to an orderly zone,
as long as their months are months. -/
theorem build_orderly (directives : List Directive) (id : String)
    (hmonths : ∀ directive ∈ directives, ∀ point ∈ directive.point?,
      1 ≤ point.month ∧ point.month ≤ 12) :
    ∃ zone messages, (ofDirectives directives).build? id = some (zone, messages) ∧
      zone.Orderly := by
  let draft := ofDirectives directives
  have hlacks : draft.lacksMonth = false := by
    refine ofDirectives_not_lacksMonth fun directive hdirective point hpoint => ?_
    obtain ⟨hlow, hhigh⟩ := hmonths directive hdirective point hpoint
    exact YearPoint.hasMonth_of_range hlow hhigh
  refine ⟨(draft.build id).1, (draft.build id).2, by simp [build?, draft, hlacks], ?_⟩
  exact zoneOf_orderly id (draft.simulate_sound true)

def backdatedDirectives : List Directive :=
  [.standardOffset 3600000,
    .recurringSaving ⟨{ month := 3, day := -1, weekday := 7 }, "S", 3600000⟩ 1990 9999,
    .recurringSaving ⟨{ month := 10, day := -1, weekday := 7 }, "N", 0⟩ 1990 9999,
    .cutover 1980 { month := 6, day := 31 },
    .fixedSaving "F" (-7200000),
    .cutover 1970 {},
    .standardOffset 0]

theorem build_orderly_backdated :
    (∀ directive ∈ backdatedDirectives, ∀ point ∈ directive.point?,
      1 ≤ point.month ∧ point.month ≤ 12) ∧
    ∃ zone messages, (ofDirectives backdatedDirectives).build? "Z" = some (zone, messages) ∧
      zone.Orderly :=
  ⟨by decide, build_orderly backdatedDirectives "Z" (by decide)⟩

end Draft

end CivilTime
