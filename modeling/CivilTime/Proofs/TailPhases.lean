import CivilTime.Proofs.Bytes
import CivilTime.Proofs.Firing
import CivilTime.Proofs.Lookup

/-!
Two rules that are left alone take turns as their tail says. In a phase of the timeline one of them
is in effect; it may come up once more without a change, and the phase ends with the first
occurrence of the other one. So the history that the rules build shows at every instant what the
tail has in effect there.
-/

namespace CivilTime

open Tail (Side)

/-- What makes two rules follow their tail: they are alone in an open era, their points stay in the
year and alternate without ties, the offsets fit the zone file, and both rules have started by the
limit. -/
structure Era.Settled (era : Era) (tail : Tail) (rule : Side → YearlyRule) : Prop where
  carries : era.Carries tail rule
  isOpen : era.cutover = none
  stays : tail.StaysInYear
  alternates : tail.Alternates
  untied : tail.Untied
  offset : Bytes.FitsSigned 32 era.standardOffset
  saves : ∀ side, Bytes.FitsSigned 32 (tail.recurrence side).save
  started : ∀ side, Instant.startOfYear (rule side).fromYear ≤ Era.limit + 2 ^ 32

def Era.nextUnder (era : Era) (tail : Tail) (rule : Side → YearlyRule) (effect side : Side)
    (instant : Int) : Int :=
  (rule side).next instant era.standardOffset (tail.recurrence effect).save

/-- A phase of the timeline: one rule is in effect since the newest entry, and the other one has not
occurred up to the last transition. The rule in effect has begun, and the occurrences of the other
one to come are in its years. -/
structure Era.Phase (era : Era) (tail : Tail) (rule : Side → YearlyRule) (side : Side)
    (newest last : Transition) : Prop where
  newest_eq : tail.Brings side newest
  last_eq : tail.Brings side last
  occurs : ∃ year, newest.millis = tail.occurrence side year
  reached : newest.millis ≤ last.millis
  early : last.millis < Era.limit
  quiet : ∀ year, newest.millis < tail.occurrence side.other year →
    last.millis < tail.occurrence side.other year
  begun : Instant.startOfYear (rule side).fromYear ≤
    newest.millis + (era.standardOffset + tail.saveBefore side)
  due : ∀ year, last.millis < tail.occurrence side.other year →
    Instant.startOfYear (rule side.other).fromYear ≤
      tail.occurrence side.other year + (era.standardOffset + tail.saveBefore side.other)

/-- At an instant the history shows what the tail has in effect there. -/
def Tail.Agrees (tail : Tail) (history : History) (instant : Int) : Prop :=
  ∃ side millis, history.at? instant = some (tail.entry side millis) ∧
    tail.current instant = tail.recurrence side

namespace Era.Settled

variable {era : Era} {tail : Tail} {rule : Side → YearlyRule} (h : era.Settled tail rule)

include h

theorem stays_rule (side : Side) : (rule side).recurrence.point.StaysInYear := by
  rw [h.carries.recurrence]
  exact h.stays side

/-- Neither rule is dropped before the limit. -/
theorem lt_nextUnder (effect side : Side) {instant : Int} (hearly : instant < Era.limit) :
    instant < era.nextUnder tail rule effect side instant := by
  have hoffset := h.offset
  have hsave := h.saves effect
  have hstarted := h.started side
  have hlimit : Era.limit = 4102444800000 := by decide +kernel
  have hforever : Instant.startOfYear ((rule side).toYear + 1) = 253402300800000 := by
    rw [h.carries.forever]
    decide +kernel
  simp only [Bytes.FitsSigned] at hoffset hsave
  have hdays : 732 * Instant.millisPerDay = 63244800000 := by decide
  refine YearlyRule.lt_next (h.stays_rule side) ?_ ?_
  · rw [hforever, hdays]
    omega
  · rw [hforever, hdays]
    omega

/-- Where the two would come up at the same instant, the rule in effect comes up first only if it is
strictly sooner. -/
theorem nextTransition_eq (effect : Side) {instant : Int} (hearly : instant < Era.limit) :
    ∃ fired,
      era.nextTransition [rule .starting, rule .ending] instant (tail.recurrence effect).save =
        (if Era.limit ≤ era.nextUnder tail rule effect fired instant then none
          else some (tail.entry fired (era.nextUnder tail rule effect fired instant)),
          [rule .starting, rule .ending]) ∧
      era.nextUnder tail rule effect fired instant ≤
        era.nextUnder tail rule effect fired.other instant ∧
      (fired = effect → era.nextUnder tail rule effect effect instant <
        era.nextUnder tail rule effect effect.other instant) := by
  obtain ⟨fired, hnext, hsooner, hstarting⟩ :=
    Era.nextTransition_pair h.isOpen rule fun side => h.lt_nextUnder effect side hearly
  refine ⟨fired, by rw [hnext, h.carries.stateOf_eq]; rfl, hsooner, ?_⟩
  rintro rfl
  cases fired with
  | starting => exact hstarting rfl
  | ending =>
    refine lt_of_le_of_ne hsooner fun htie => ?_
    obtain ⟨year, hyear⟩ := h.carries.next_occurrence (h.lt_nextUnder .ending .starting hearly)
    obtain ⟨again, hagain⟩ := YearlyRule.exists_next_eq (h.lt_nextUnder .ending .ending hearly)
    refine h.untied year again (hyear.symm.trans (htie.symm.trans (hagain.trans ?_)))
    rw [h.carries.recurrence, ← h.carries.standardOffset]
    rfl

variable {side : Side} {newest last : Transition} (hphase : era.Phase tail rule side newest last)

include hphase

theorem nextUnder_le {year : Int} (hlater : newest.millis < tail.occurrence side.other year) :
    era.nextUnder tail rule side side.other last.millis ≤ tail.occurrence side.other year := by
  have hwhere : tail.occurrence side.other year =
      (rule side.other).recurrence.point.instantIn year era.standardOffset
        (tail.recurrence side).save := by
    rw [Tail.occurrence, Tail.saveBefore, Side.other_other, h.carries.recurrence,
      h.carries.standardOffset]
  have hquiet := hphase.quiet year hlater
  have hdue := hphase.due year hquiet
  rw [Tail.saveBefore, Side.other_other] at hdue
  rw [hwhere] at hquiet hdue ⊢
  exact YearlyRule.next_le (h.stays_rule side.other) hquiet hdue

/-- Until the other rule comes up, the tail has the same rule in effect as the phase. -/
theorem current_eq {instant : Int} (hreached : newest.millis ≤ instant)
    (hbefore : instant < era.nextUnder tail rule side side.other last.millis) :
    tail.current instant = tail.recurrence side := by
  obtain ⟨year, hyear⟩ := hphase.occurs
  refine Tail.current_eq h.stays h.alternates (hyear ▸ hreached) fun between hafter => ?_
  rw [← hyear] at hafter
  exact hbefore.trans_le (h.nextUnder_le hphase hafter)

/-- A phase goes on if its own rule comes up again. -/
theorem again
    (hsooner : era.nextUnder tail rule side side last.millis <
      era.nextUnder tail rule side side.other last.millis)
    (hearly : era.nextUnder tail rule side side last.millis < Era.limit) :
    era.Phase tail rule side newest
      (tail.entry side (era.nextUnder tail rule side side last.millis)) := by
  have hforward := h.lt_nextUnder side side hphase.early
  refine ⟨hphase.newest_eq, rfl, hphase.occurs, hphase.reached.trans hforward.le, hearly, ?_,
    hphase.begun, fun year hafter => hphase.due year (hforward.trans hafter)⟩
  intro year hafter
  exact hsooner.trans_le (h.nextUnder_le hphase hafter)

/-- A phase of the other rule begins with the first occurrence of that rule. -/
theorem switch (hearly : era.nextUnder tail rule side side.other last.millis < Era.limit) :
    era.Phase tail rule side.other
      (tail.entry side.other (era.nextUnder tail rule side side.other last.millis))
      (tail.entry side.other (era.nextUnder tail rule side side.other last.millis)) := by
  have hforward := h.lt_nextUnder side side.other hphase.early
  have hbegun := YearlyRule.fromYear_le_next (h.stays_rule side.other) hforward
  have hsave : tail.saveBefore side.other = (tail.recurrence side).save := by
    rw [Tail.saveBefore, Side.other_other]
  refine ⟨rfl, rfl, ?_, le_rfl, hearly, fun _ hafter => hafter, ?_, ?_⟩
  · rw [Era.nextUnder, ← hsave] at hforward
    obtain ⟨year, hyear⟩ := h.carries.next_occurrence hforward
    rw [hsave] at hyear
    exact ⟨year, hyear⟩
  · rw [hsave]
    exact hbegun
  · intro year hafter
    rw [Side.other_other] at hafter ⊢
    have hlast : last.millis < tail.occurrence side year := hforward.trans hafter
    have hreached := hphase.reached
    have hown := hphase.begun
    omega

/-- One firing of a phase: its own rule comes up again and changes nothing, or the other rule takes
over. -/
theorem step {history : History} (hhead : newest ∈ history.head?) (hshows : history.Shows last)
    {firing : Firing} (hhistory : firing.history = history) (hlast : firing.last = last)
    (hnext : firing.Next era [rule .starting, rule .ending])
    (hkeeps : firing.history.Keeps firing.transition) :
    firing.remaining = [rule .starting, rule .ending] ∧
      ((firing.after = history ∧ era.Phase tail rule side newest firing.transition) ∨
        (firing.after = firing.transition :: history ∧
          firing.transition.millis = era.nextUnder tail rule side side.other last.millis ∧
          era.Phase tail rule side.other firing.transition firing.transition)) := by
  obtain ⟨fired, heq, -, hsooner⟩ := h.nextTransition_eq side hphase.early
  rw [Firing.Next, hlast, hphase.last_eq.save_eq, heq, Prod.mk.injEq] at hnext
  obtain ⟨htransition, hremaining⟩ := hnext
  split at htransition
  · contradiction
  next hearly =>
  have hentry := (Option.some.inj htransition).symm
  refine ⟨hremaining.symm, ?_⟩
  rw [Firing.after, hhistory] at *
  rcases fired.eq_or_eq_other side with rfl | rfl
  · refine Or.inl ⟨?_, hentry ▸ h.again hphase (hsooner rfl) (not_le.mp hearly)⟩
    have hsame : firing.transition.sameState newest = true := by
      rw [hentry, hphase.newest_eq]
      exact Transition.sameState_refl (tail.entry fired 0)
    rw [History.push_of_sameState hhead hsame]
  · refine Or.inr ⟨?_, by rw [hentry]; rfl, hentry ▸ h.switch hphase (not_le.mp hearly)⟩
    have hlater : last.millis < firing.transition.millis := by
      rw [hentry]
      exact h.lt_nextUnder side side.other hphase.early
    have hchanges : ¬ firing.transition.sameState last = true := by
      intro hsame
      rw [hentry, hphase.last_eq] at hsame
      exact side.ne_other (h.carries.sameState_entry hsame).symm
    rw [hshows.push_of_keeps hkeeps hlater hchanges]

theorem limit_le_nextUnder {history : History}
    (hend : era.firings [rule .starting, rule .ending] history last = []) :
    Era.limit ≤ era.nextUnder tail rule side side.other last.millis := by
  obtain ⟨fired, heq, -, hown⟩ := h.nextTransition_eq side hphase.early
  have hnone := Era.firings_eq_nil hend
  rw [hphase.last_eq.save_eq, heq] at hnone
  split at hnone
  · next hlimit =>
    rcases fired.eq_or_eq_other side with rfl | rfl
    · exact hlimit.trans (hown rfl).le
    · exact hlimit
  · contradiction

omit h in
theorem at?_newest {history : History} (hhead : newest ∈ history.head?) {instant : Int}
    (hreached : newest.millis ≤ instant) :
    history.at? instant = some (tail.entry side newest.millis) := by
  obtain ⟨older, rfl⟩ : ∃ older, history = newest :: older := by
    simpa [List.head?_eq_some_iff] using hhead
  rw [History.at?_cons_of_le hreached, ← hphase.newest_eq]

/-- What the two rules leave from a phase on. Entries are only added, all of them after the last
transition, and from the newest entry on the history agrees with the tail up to the limit. -/
theorem outcome_agrees {history : History} (hhead : newest ∈ history.head?)
    (hshows : history.Shows last)
    (hkeeps : ∀ firing ∈ era.firings [rule .starting, rule .ending] history last,
      firing.history.Keeps firing.transition) :
    ∃ added, Firing.outcome history
        (era.firings [rule .starting, rule .ending] history last) = added ++ history ∧
      (∀ entry ∈ added, last.millis < entry.millis) ∧
      ∀ instant, newest.millis ≤ instant → instant < Era.limit →
        tail.Agrees (added ++ history) instant := by
  -- The induction is on the firings that are left; the phase changes hands on the way.
  induction hfirings : era.firings [rule .starting, rule .ending] history last
    generalizing side newest last history with
  | nil =>
    refine ⟨[], rfl, by simp, fun instant hreached hearly => ⟨side, newest.millis, ?_, ?_⟩⟩
    · exact at?_newest hphase hhead hreached
    · exact h.current_eq hphase hreached (hearly.trans_le (h.limit_le_nextUnder hphase hfirings))
  | cons firing rest ih =>
    obtain ⟨hhistory, hlast, hnext, hrest⟩ := Era.firings_eq_cons hfirings
    have hforward : last.millis < firing.transition.millis := hlast ▸ hnext.bounds.1
    have hafterShows := hnext.shows (by rw [hhistory, hlast]; exact hshows)
    obtain ⟨hremaining, hcases⟩ :=
      h.step hphase hhead hshows hhistory hlast hnext (hkeeps firing (by simp [hfirings]))
    rw [hremaining] at hrest
    have hkeepsRest : ∀ later ∈ era.firings [rule .starting, rule .ending] firing.after
        firing.transition, later.history.Keeps later.transition := by
      intro later hlater
      exact hkeeps later (by simp [hfirings, hrest, hlater])
    rw [Firing.outcome]
    rcases hcases with ⟨hafter, hnewPhase⟩ | ⟨hafter, hmillis, hnewPhase⟩
    · rw [hafter] at hafterShows hkeepsRest hrest ⊢
      obtain ⟨added, houtcome, hlater, hagrees⟩ :=
        ih hnewPhase hhead hafterShows hkeepsRest hrest.symm
      exact ⟨added, houtcome, fun entry hentry => hforward.trans (hlater entry hentry), hagrees⟩
    · rw [hafter] at hafterShows hkeepsRest hrest ⊢
      obtain ⟨added, houtcome, hlater, hagrees⟩ :=
        ih hnewPhase rfl hafterShows hkeepsRest hrest.symm
      have hadded : ∀ entry ∈ added ++ [firing.transition],
          firing.transition.millis ≤ entry.millis := by
        intro entry hentry
        rcases List.mem_append.mp hentry with hmem | hmem
        · exact (hlater entry hmem).le
        · rw [List.mem_singleton.mp hmem]
      refine ⟨added ++ [firing.transition], by simpa using houtcome,
        fun entry hentry => hforward.trans_le (hadded entry hentry), ?_⟩
      intro instant hreached hearly
      rcases lt_or_ge instant firing.transition.millis with hbefore | hafterwards
      · refine ⟨side, newest.millis, ?_, ?_⟩
        · rw [History.at?_append fun entry hentry => hbefore.trans_le (hadded entry hentry)]
          exact at?_newest hphase hhead hreached
        · exact h.current_eq hphase hreached (hmillis ▸ hbefore)
      · simpa using hagrees instant hafterwards hearly

end Era.Settled

end CivilTime
