import CivilTime.Proofs.FixedZone

/-!
The last stretch of a zone. Everything that comes before it lies before its nominal beginning, give
or take the offsets. So it is in effect from a few days after that on, exactly if it is taken up
where the walk arrives at it: at an instant after the transition before it, or in the state that is
there already. A beginning on the wall clock may be located with the saving that has just come into
effect, and then it may fall back to that very transition.
-/

namespace CivilTime

open Source (Stretch Zone)

/-- Putting a transition on an ordered history leads to its state, exactly if it comes after the
newest entry or brings nothing new. -/
theorem History.push_state_iff {history : History} (h : history.Ordered) (transition : Transition) :
    (∀ newest ∈ (history.push transition).1.head?, newest.state = transition.state) ↔
      ∀ newest ∈ history.head?,
        newest.millis < transition.millis ∨ newest.state = transition.state := by
  cases history with
  | nil => simp [History.push]
  | cons newest older =>
    by_cases hlater : newest.millis < transition.millis
    · have hentries : ∀ entry ∈ newest :: older, entry.millis < transition.millis := by
        have hincreasing := h.increasing
        rw [List.pairwise_reverse, List.pairwise_cons] at hincreasing
        intro entry hentry
        rcases List.mem_cons.mp hentry with rfl | hmem
        · exact hlater
        · exact (hincreasing.1 entry hmem).trans hlater
      obtain ⟨shown, hshown, hstate⟩ := (History.push_shows hentries).shown
      refine ⟨fun _ => by simp [hlater], fun _ top htop => ?_⟩
      obtain rfl := Option.mem_unique htop hshown
      exact ((transition.sameState_iff_state top).mp hstate).symm
    · have hpush : History.push (newest :: older) transition = (newest :: older, false) := by
        rw [History.push, if_neg (by simp [Transition.follows_some_iff, hlater])]
      rw [hpush]
      simp [hlater]

namespace Era

structure OffsetsBelow (era : Era) (bound : Int) : Prop where
  standard : |era.standardOffset| < bound
  fixed : ∀ fixed ∈ era.fixed, |era.standardOffset + fixed.save| < bound
  rules : ∀ rule ∈ era.rules, |era.standardOffset + rule.recurrence.save| < bound

theorem nextTransition_lt_upperLimit {era : Era} {rules : List YearlyRule}
    {instant save upper : Int} {transition : Transition}
    (h : (era.nextTransition rules instant save).1 = some transition)
    (hupper : era.upperLimit save = some upper) : transition.millis < upper := by
  simp only [nextTransition, hupper] at h
  split at h
  · contradiction
  · split at h
    · contradiction
    · split at h
      · contradiction
      · next hbefore =>
        obtain rfl := Option.some.inj h
        exact not_le.mp hbefore

end Era

namespace Progress

structure Before (progress : Progress) (bound : Int) : Prop where
  reached : progress.millis < bound
  entries : ∀ entry ∈ progress.history, entry.millis < bound

/-- The rules of a closed era bring nothing from its end on. `P` holds of all savings that come into
effect on the way. -/
theorem follow_before {era : Era} {P : Int → Prop} {bound : Int}
    (hupper : ∀ save, P save → ∃ upper ≤ bound, era.upperLimit save = some upper)
    {tailAllowed : Bool} {rules : List YearlyRule} {progress : Progress}
    (hrules : ∀ rule ∈ rules, P rule.recurrence.save) (hsave : P progress.save)
    (hentries : ∀ entry ∈ progress.history, entry.millis < bound) :
    P (follow era tailAllowed rules progress).save ∧
      ∀ entry ∈ (follow era tailAllowed rules progress).history, entry.millis < bound := by
  fun_induction follow era tailAllowed rules progress with
  | case1 rules progress remaining hnext => exact ⟨hsave, hentries⟩
  | case2 rules progress transition remaining hnext hjoined =>
    obtain ⟨upper, hle, hlimit⟩ := hupper progress.save hsave
    have hlt := Era.nextTransition_lt_upperLimit (congrArg Prod.fst hnext) hlimit
    exact ⟨hsave, History.push_forall hentries (hlt.trans_le hle)⟩
  | case3 rules progress transition remaining hnext hjoined ih =>
    obtain ⟨upper, hle, hlimit⟩ := hupper progress.save hsave
    have hlt := Era.nextTransition_lt_upperLimit (congrArg Prod.fst hnext) hlimit
    have hkept := Era.nextTransition_subset hnext
    obtain ⟨-, rule, hmem, hstate⟩ := Era.nextTransition_cases hnext
    refine ih (fun rule hrule => hrules rule (hkept hrule)) ?_
      (History.push_forall hentries (hlt.trans_le hle))
    rw [hstate, Era.stateOf_save]
    exact hrules rule (hkept hmem)

theorem enter_before {era : Era} {P : Int → Prop} {bound : Int}
    (hzero : era.rules ≠ [] → P 0) (hfixed : ∀ fixed ∈ era.fixed, P fixed.save)
    (hrules : ∀ rule ∈ era.rules, P rule.recurrence.save)
    (hupper : ∀ save, P save → ∃ upper ≤ bound, era.upperLimit save = some upper)
    {progress : Progress} (h : progress.Before bound) {first : Transition}
    (hfirst : era.firstTransition progress.millis = some first) (tailAllowed : Bool) :
    P (progress.enter era tailAllowed first).save ∧
      ∀ entry ∈ (progress.enter era tailAllowed first).history, entry.millis < bound := by
  refine follow_before hupper hrules (Era.firstTransition_save hzero hfixed hrules hfirst) ?_
  refine History.push_forall h.entries ?_
  rw [Era.firstTransition_millis hfirst]
  exact h.reached

theorem skip_before {progress : Progress} {bound : Int} (h : progress.Before bound) :
    progress.skip.Before bound := by
  rw [skip]
  split
  · exact h
  · next last older hhistory =>
    split
    · exact ⟨h.reached, History.push_forall h.entries h.reached⟩
    · exact h

/-- Eras whose nominal ends lie two days before a bound bring nothing from the bound on. -/
theorem walk_before {eras : List Era} {bound : Int}
    (hoffsets : ∀ era ∈ eras, era.OffsetsBelow (2 * Instant.millisPerDay))
    (hends : ∀ era ∈ eras, ∃ cutover ∈ era.cutover,
      cutover.point.localMillis cutover.year + 2 * Instant.millisPerDay ≤ bound)
    {progress : Progress} (h : progress.Before bound) :
    (walk false eras progress).Before bound := by
  induction eras generalizing progress with
  | nil => exact h
  | cons era rest ih =>
    have hrest := fun progress (h : Progress.Before progress bound) =>
      ih (fun era hera => hoffsets era (by simp [hera]))
        (fun era hera => hends era (by simp [hera])) h
    obtain ⟨hstandard, hfixed, hrules⟩ := hoffsets era (by simp)
    obtain ⟨cutover, hcutover, hend⟩ := hends era (by simp)
    let P : Int → Prop := fun save => |era.standardOffset + save| < 2 * Instant.millisPerDay
    have hupper : ∀ save, P save → ∃ upper < bound, era.upperLimit save = some upper := by
      intro save hsave
      refine ⟨cutover.point.instantIn cutover.year era.standardOffset save, ?_, ?_⟩
      · exact ((cutover.point.instantIn_close cutover.year hstandard hsave).2).trans_le hend
      · rw [Era.upperLimit, Option.mem_def.mp hcutover, Option.map_some]
    rw [walk]
    split
    · exact hrest _ (skip_before h)
    · split
      · exact hrest _ h
      · next first hfirst =>
        have hzero : era.rules ≠ [] → P 0 := fun _ => by simpa [P] using hstandard
        obtain ⟨hsave, hentries⟩ := enter_before (P := P) hzero hfixed hrules
          (fun save hsave => (hupper save hsave).imp fun _ hlt => ⟨hlt.1.le, hlt.2⟩) h hfirst
          (false && rest.isEmpty)
        obtain ⟨upper, hlt, hlimit⟩ := hupper _ hsave
        simp only [hlimit]
        exact hrest _ ⟨hlt, hentries⟩

/-- An era whose end does not depend on the savings in effect there lets the walk arrive after all
transitions. -/
theorem walk_arrives {era : Era} {P : Int → Prop} {upper : Int}
    (hzero : era.rules ≠ [] → P 0) (hfixed : ∀ fixed ∈ era.fixed, P fixed.save)
    (hrules : ∀ rule ∈ era.rules, P rule.recurrence.save)
    (hupper : ∀ save, P save → era.upperLimit save = some upper)
    (hopens : era.fixed.isSome = true ∨ ∃ rule ∈ era.rules, rule.recurrence.save = 0)
    {progress : Progress} (h : progress.Before upper) :
    (walk false [era] progress).millis = upper ∧
      ∀ entry ∈ (walk false [era] progress).history, entry.millis < upper := by
  have hfilled : era.isEmpty = false := by
    rcases hopens with hsome | ⟨rule, hrule, -⟩
    · simp [Era.isEmpty, Option.isSome_iff_ne_none.mp hsome]
    · simp [Era.isEmpty, List.ne_nil_of_mem hrule]
  obtain ⟨first, hfirst⟩ :=
    Option.isSome_iff_exists.mp (Era.firstTransition_isSome hopens progress.millis)
  obtain ⟨hsave, hentries⟩ := enter_before hzero hfixed hrules
    (fun save hsave => ⟨upper, le_rfl, hupper save hsave⟩) h hfirst
    (false && ([] : List Era).isEmpty)
  rw [walk, hfilled, hfirst]
  simp only [Bool.false_eq_true, if_false, hupper _ hsave]
  exact ⟨rfl, hentries⟩

end Progress

namespace Draft

/-- The state of the last era is taken up: it comes after the transition before it, or the zone is
in that state already. -/
def TakesUp (draft : Draft) (state : State) : Prop :=
  ∀ newest ∈ draft.arrival.history.head?,
    newest.millis < draft.arrival.millis ∨ newest.state = state

/-- A last era under a fixed saving opens where the walk arrives at it, and that is all. -/
theorem simulate_fixed {earlier : List Era} {last : Era} {fixed : FixedSaving}
    (hclosed : ∀ era ∈ earlier, era.cutover.isSome = true) (hopen : last.cutover = none)
    (hfixed : last.fixed = some fixed) (hrules : last.rules = []) :
    let draft : Draft := ⟨earlier ++ [last]⟩
    (draft.simulate true).tail = none ∧
      (draft.simulate true).history = (draft.arrival.history.push
        ⟨draft.arrival.millis, fixed.name, last.standardOffset + fixed.save,
          last.standardOffset⟩).1 := by
  intro draft
  have harrival : draft.arrival = Progress.walk false earlier {} := by simp [arrival, draft]
  have htail : draft.arrival.tail = none := Progress.walk_tail_of_disallowed rfl
  have hsimulate : draft.simulate true = Progress.walk true [last] draft.arrival := by
    rw [simulate, Progress.walk_concat hclosed, harrival]
  rw [hsimulate, Progress.walk_fixed hfixed hrules, Era.upperLimit, hopen]
  exact ⟨htail, rfl⟩

/-- Once an instant has reached all entries, the state is that of the newest. -/
theorem zoneOf_stateAt (id : String) {progress : Progress} (h : progress.Sound)
    (htail : progress.tail = none) {newest : Transition} (hnewest : newest ∈ progress.history.head?)
    {instant : Int} (hreached : newest.millis ≤ instant) :
    (zoneOf id progress).stateAt instant = newest.state := by
  obtain ⟨older, hhistory⟩ : ∃ older, progress.history = newest :: older := by
    simpa [List.head?_eq_some_iff] using hnewest
  refine TimeZone.stateAt_of_transitionAt? (TimeZone.tailAt?_of_tail_eq_none htail instant) ?_
  rw [zoneOf_transitionAt? id h (by simp [hhistory]), hhistory, History.at?_cons_of_le hreached]

/-- The state of a last era under a fixed saving holds from some instant on, exactly if it is taken
up. The bound is one that no transition has reached. -/
theorem stateAt_fixed_iff (id : String) {earlier : List Era} {last : Era} {fixed : FixedSaving}
    (hclosed : ∀ era ∈ earlier, era.cutover.isSome = true) (hopen : last.cutover = none)
    (hfixed : last.fixed = some fixed) (hrules : last.rules = []) {bound : Int}
    (hbound : (⟨earlier ++ [last]⟩ : Draft).arrival.Before bound) :
    let draft : Draft := ⟨earlier ++ [last]⟩
    let state : State := ⟨last.standardOffset + fixed.save, last.standardOffset, fixed.name⟩
    (draft.TakesUp state → ∀ instant, bound ≤ instant + 1 →
        (draft.toTimeZone id).stateAt instant = state) ∧
      ((draft.toTimeZone id).stateAt bound = state → draft.TakesUp state) := by
  intro draft state
  obtain ⟨htail, hhistory⟩ := simulate_fixed hclosed hopen hfixed hrules
  let first : Transition := ⟨draft.arrival.millis, fixed.name, last.standardOffset + fixed.save,
    last.standardOffset⟩
  have hordered : draft.arrival.history.Ordered :=
    (Progress.walk_sound Progress.start_sound).ordered
  have htakes := History.push_state_iff hordered first
  obtain ⟨newest, older, hpush⟩ :=
    List.exists_cons_of_ne_nil (History.push_ne_nil draft.arrival.history first)
  have hnewest : newest ∈ (draft.simulate true).history.head? := by
    rw [hhistory, hpush]
    rfl
  have hfirst : first.millis < bound := hbound.reached
  have hreached : newest.millis < bound :=
    History.push_forall hbound.entries hfirst newest (by simp [draft, hpush])
  rw [hpush] at htakes
  refine ⟨fun htaken instant hinstant => ?_, fun hstate => htakes.mp ?_⟩
  · rw [toTimeZone, zoneOf_stateAt id (draft.simulate_sound true) htail hnewest (by omega)]
    exact htakes.mpr htaken newest rfl
  · rw [toTimeZone,
      zoneOf_stateAt id (draft.simulate_sound true) htail hnewest hreached.le] at hstate
    rintro top htop
    obtain rfl := Option.some.inj htop
    exact hstate

end Draft

namespace Source

/-- Rules with savings of less than a day, one of which holds without saving. -/
structure RuleSet.Moderate (set : RuleSet) : Prop where
  years : ∀ rule ∈ set.rules, rule.fromYear ≤ rule.toYear
  points : ∀ rule ∈ set.rules, rule.point.Readable
  saves : ∀ rule ∈ set.rules, |rule.save| < Instant.millisPerDay
  standard : ∃ rule ∈ set.rules, rule.save ≤ 0

/-- A stretch with offsets of less than a day, under a fixed saving or under rules that are there.
-/
structure Stretch.Moderate (rules : String → Option RuleSet) (stretch : Stretch) : Prop where
  offset : |stretch.standardOffset| < Instant.millisPerDay
  ending : stretch.untilYear.isSome = true → stretch.untilPoint.Readable
  savings : (∃ save, stretch.fixedSave? = some save ∧ |save| < Instant.millisPerDay) ∨
    ∃ name set, stretch.ruleName? = some name ∧ rules name = some set ∧ set.Moderate

theorem RuleSet.Moderate.lowestSave {set : RuleSet} (h : set.Moderate) :
    |set.lowestSave| < Instant.millisPerDay := by
  rcases set.lowestSave_cases with hzero | ⟨rule, hrule, hsave⟩
  · rw [hzero]
    decide
  · rw [← hsave]
    exact h.saves rule hrule

namespace Stretch.Moderate

variable {rules : String → Option RuleSet} {stretch : Stretch} (h : stretch.Moderate rules)
  (name : String)

include h

theorem offsetsBelow : (Zone.era name rules stretch).OffsetsBelow (2 * Instant.millisPerDay) := by
  have hoffset := abs_lt.mp h.offset
  rcases h.savings with ⟨save, hsave, hbelow⟩ | ⟨savings, set, hname, hset, hmoderate⟩
  · have hbelow := abs_lt.mp hbelow
    rw [Zone.era_of_fixedSave? hsave]
    refine ⟨abs_lt.mpr ?_, fun fixed hfixed => abs_lt.mpr ?_, by simp⟩
    · dsimp only
      omega
    · obtain rfl := Option.some.inj hfixed
      dsimp only
      omega
  · have hlowest := abs_lt.mp hmoderate.lowestSave
    rw [Zone.era_of_set hname hset]
    refine ⟨abs_lt.mpr (by dsimp only; omega), by simp, fun rule hrule => abs_lt.mpr ?_⟩
    obtain ⟨source, hsource, rfl⟩ := List.mem_map.mp hrule
    rcases RuleSet.mem_resolvedRules (List.mem_of_mem_filter hsource) with hmem | rfl
    · have hsave := abs_lt.mp (hmoderate.saves source hmem)
      simp only [Rule.yearly]
      omega
    · simp only [Rule.yearly, Rule.anchor]
      omega

theorem hasStandard : stretch.HasStandard rules := by
  rcases h.savings with ⟨save, hsave, -⟩ | ⟨savings, set, hname, hset, hmoderate⟩
  · exact Or.inl ⟨save, hsave⟩
  · exact Or.inr ⟨savings, set, hname, hset, hmoderate.years, hmoderate.standard⟩

theorem opens : (Zone.era name rules stretch).fixed.isSome = true ∨
    ∃ rule ∈ (Zone.era name rules stretch).rules, rule.recurrence.save = 0 :=
  Zone.era_opens name h.hasStandard

theorem hasMonths : stretch.HasMonths rules := by
  constructor
  · intro hends
    have hreadable := h.ending hends
    exact YearPoint.hasMonth_of_range hreadable.month.1 hreadable.month.2
  · intro name hname set hset rule hrule
    have hfixed := Stretch.fixedSave?_of_ruleName? hname
    obtain ⟨savings, given, hsavings, hgiven, hmoderate⟩ :=
      h.savings.resolve_left (by simp [hfixed])
    obtain rfl := Option.mem_unique hname hsavings
    obtain rfl := Option.mem_unique hset hgiven
    have hreadable := hmoderate.points rule hrule
    exact YearPoint.hasMonth_of_range hreadable.month.1 hreadable.month.2

/-- An end on another than the wall clock, or of a stretch under a fixed saving, is the same under
all savings `P` of the stretch. -/
theorem exists_steady_end {year : Int} (hyear : stretch.untilYear = some year)
    (hsteady : stretch.fixedSave?.isSome = true ∨ stretch.untilPoint.clock ≠ .wall) :
    ∃ (P : Int → Prop) (upper : Int),
      ((Zone.era name rules stretch).rules ≠ [] → P 0) ∧
      (∀ fixed ∈ (Zone.era name rules stretch).fixed, P fixed.save) ∧
      (∀ rule ∈ (Zone.era name rules stretch).rules, P rule.recurrence.save) ∧
      (∀ save, P save → (Zone.era name rules stretch).upperLimit save = some upper) ∧
      stretch.untilPoint.localMillis year - 2 * Instant.millisPerDay < upper := by
  obtain ⟨hstandard, hwall, -⟩ := h.offsetsBelow name
  have hlimit : ∀ save, (Zone.era name rules stretch).upperLimit save = some
      (stretch.untilPoint.instantIn year (Zone.era name rules stretch).standardOffset save) := by
    intro save
    have hcutover : (Zone.era name rules stretch).cutover = some ⟨year, stretch.untilPoint⟩ := by
      simp [Zone.era, Stretch.cutover?, hyear]
    rw [Era.upperLimit, hcutover, Option.map_some]
  rcases hsteady with hsome | hclock
  · obtain ⟨save, hsave⟩ := Option.isSome_iff_exists.mp hsome
    have hfixed : (Zone.era name rules stretch).fixed =
        some ⟨Abbreviation.fixed stretch.format stretch.standardOffset save, save⟩ := by
      rw [Zone.era_of_fixedSave? hsave]
    have hrules : (Zone.era name rules stretch).rules = [] := by
      rw [Zone.era_of_fixedSave? hsave]
    refine ⟨(· = save),
      stretch.untilPoint.instantIn year (Zone.era name rules stretch).standardOffset save,
      fun hsome => absurd hrules hsome, by simp [hfixed], by simp [hrules], ?_, ?_⟩
    · rintro other rfl
      exact hlimit other
    · exact (stretch.untilPoint.instantIn_close year hstandard (hwall _ hfixed)).1
  · refine ⟨fun _ => True,
      stretch.untilPoint.instantIn year (Zone.era name rules stretch).standardOffset 0,
      fun _ => trivial, fun _ _ => trivial, fun _ _ => trivial, fun save _ => ?_, ?_⟩
    · rw [hlimit, YearPoint.instantIn_of_ne_wall hclock year _ save 0]
    · refine (stretch.untilPoint.instantIn_close year hstandard ?_).1
      simpa using hstandard

end Stretch.Moderate

namespace Zone

/-- Moderate stretches are compiled. -/
theorem build?_moderate (zone : Zone) {rules : String → Option RuleSet} (id : String)
    (h : ∀ stretch ∈ zone.stretches, stretch.Moderate rules) :
    (zone.resolve rules).missing = none ∧
      (Draft.ofDirectives (zone.resolve rules).directives).build? id =
        some ((Draft.ofDirectives (zone.resolve rules).directives).build id) := by
  have hmissing : ∀ stretch ∈ zone.stretches,
      (resolveSavings zone.name rules stretch).missing = none :=
    fun stretch hstretch => missing_of_hasStandard (h stretch hstretch).hasStandard
  constructor
  · exact resolveStretches_missing fun stretch hstretch =>
      hmissing stretch (reached_subset _ hstretch)
  · exact zone.build?_of_hasMonths id hmissing fun stretch hstretch =>
      (h stretch hstretch).hasMonths

section Closed

variable {rules : String → Option RuleSet} {earlier : List Stretch} {before : Stretch} {year : Int}
  (hmoderate : ∀ stretch ∈ earlier ++ [before], stretch.Moderate rules)
  (hclosed : ∀ stretch ∈ earlier ++ [before], stretch.untilYear.isSome = true)
  (hapart : ((earlier ++ [before]).filterMap Stretch.untilYear).IsChain
    fun this next => this + 2 ≤ next)
  (hyear : before.untilYear = some year)

include hmoderate hclosed hapart hyear

/-- The nominal ends of the stretches before lie far before the last one. -/
theorem nominal_apart {stretch : Stretch} (hstretch : stretch ∈ earlier) :
    ∃ ended, stretch.untilYear = some ended ∧
      stretch.untilPoint.localMillis ended + 300 * Instant.millisPerDay ≤
        before.untilPoint.localMillis year := by
  have hmem : stretch ∈ earlier ++ [before] := List.mem_append_left _ hstretch
  obtain ⟨ended, hended⟩ := Option.isSome_iff_exists.mp (hclosed stretch hmem)
  have hyears : ended + 2 ≤ year := by
    have : IsTrans Int fun this next => this + 2 ≤ next := ⟨fun _ _ _ _ _ => by omega⟩
    rw [List.isChain_iff_pairwise, List.filterMap_append, List.pairwise_append] at hapart
    exact hapart.2.2 ended (List.mem_filterMap.mpr ⟨stretch, hstretch, hended⟩) year
      (by simp [hyear])
  refine ⟨ended, hended, ?_⟩
  exact ((hmoderate stretch hmem).ending (by simp [hended])).localMillis_apart
    ((hmoderate before (by simp)).ending (by simp [hyear])) hyears

/-- Walking through the stretches brings nothing from two days after the nominal end of the last of
them on. -/
theorem walk_closed_before (name : String) {bound : Int} (hearliest : Instant.earliest < bound)
    (hbound : before.untilPoint.localMillis year + 2 * Instant.millisPerDay ≤ bound) :
    (Progress.walk false ((earlier ++ [before]).map (era name rules)) {}).Before bound := by
  refine Progress.walk_before (fun made hmade => ?_) (fun made hmade => ?_) ⟨hearliest, by simp⟩
  · obtain ⟨stretch, hstretch, rfl⟩ := List.mem_map.mp hmade
    exact (hmoderate stretch hstretch).offsetsBelow name
  · obtain ⟨stretch, hstretch, rfl⟩ := List.mem_map.mp hmade
    rcases List.mem_append.mp hstretch with hearlier | hlast
    · obtain ⟨ended, hended, hle⟩ :=
        nominal_apart hmoderate hclosed hapart hyear hearlier
      refine ⟨⟨ended, stretch.untilPoint⟩, by simp [era, Stretch.cutover?, hended], ?_⟩
      simp only [Instant.millisPerDay_eq] at *
      omega
    · obtain rfl := List.mem_singleton.mp hlast
      exact ⟨⟨year, stretch.untilPoint⟩, by simp [era, Stretch.cutover?, hyear], hbound⟩

/-- The stretches before the last of them bring nothing from two days before its nominal end on. -/
theorem walk_earlier_before (name : String)
    (hearliest :
      Instant.earliest + 2 * Instant.millisPerDay < before.untilPoint.localMillis year) :
    (Progress.walk false (earlier.map (era name rules)) {}).Before
      (before.untilPoint.localMillis year - 2 * Instant.millisPerDay) := by
  refine Progress.walk_before (fun made hmade => ?_) (fun made hmade => ?_)
    ⟨by simpa [lt_sub_iff_add_lt] using hearliest, by simp⟩
  · obtain ⟨stretch, hstretch, rfl⟩ := List.mem_map.mp hmade
    exact (hmoderate stretch (List.mem_append_left _ hstretch)).offsetsBelow name
  · obtain ⟨stretch, hstretch, rfl⟩ := List.mem_map.mp hmade
    obtain ⟨ended, hended, hle⟩ := nominal_apart hmoderate hclosed hapart hyear hstretch
    refine ⟨⟨ended, stretch.untilPoint⟩, by simp [era, Stretch.cutover?, hended], ?_⟩
    simp only [Instant.millisPerDay_eq] at *
    omega

/-- If the end does not depend on a saving that rules bring, the walk arrives there after all
transitions. -/
theorem walk_closed_arrives (name : String)
    (hearliest :
      Instant.earliest + 2 * Instant.millisPerDay < before.untilPoint.localMillis year)
    (hsteady : before.fixedSave?.isSome = true ∨ before.untilPoint.clock ≠ .wall) :
    ∀ entry ∈ (Progress.walk false ((earlier ++ [before]).map (era name rules)) {}).history,
      entry.millis <
        (Progress.walk false ((earlier ++ [before]).map (era name rules)) {}).millis := by
  have hstart := walk_earlier_before hmoderate hclosed hapart hyear name hearliest
  have hwalk : Progress.walk false ((earlier ++ [before]).map (era name rules)) {} =
      Progress.walk false [era name rules before]
        (Progress.walk false (earlier.map (era name rules)) {}) := by
    rw [List.map_append, List.map_singleton, Progress.walk_concat]
    intro made hmade
    obtain ⟨stretch, hstretch, rfl⟩ := List.mem_map.mp hmade
    simpa [era, Stretch.cutover?] using hclosed stretch (List.mem_append_left _ hstretch)
  have hbefore := hmoderate before (by simp)
  obtain ⟨P, upper, hzero, hfixed, hrules, hupper, hlater⟩ :=
    hbefore.exists_steady_end name hyear hsteady
  obtain ⟨hmillis, hentries⟩ := Progress.walk_arrives hzero hfixed hrules hupper
    (hbefore.opens name) ⟨hstart.reached.trans hlater,
      fun entry hentry => (hstart.entries entry hentry).trans hlater⟩
  rw [hwalk, hmillis]
  exact hentries

end Closed

/-- A zone whose stretches are moderate and end at least two years apart is compiled, and from three
days after the nominal end of the last stretch but one on, the last one is in effect, exactly if it
is taken up. That is always so if the end does not depend on a saving that rules bring: if it is on
another than the wall clock, or ends a stretch under a fixed saving. -/
theorem last_stretch_holds_iff (zone : Zone) (rules : String → Option RuleSet) (id : String)
    {earlier : List Stretch} {before last : Stretch} {year : Int} {span : Span}
    (hstretches : zone.stretches = earlier ++ [before, last])
    (hmoderate : ∀ stretch ∈ zone.stretches, stretch.Moderate rules)
    (hclosed : ∀ stretch ∈ earlier ++ [before], stretch.untilYear.isSome = true)
    (hapart : ((earlier ++ [before]).filterMap Stretch.untilYear).IsChain
      fun this next => this + 2 ≤ next)
    (hyear : before.untilYear = some year) (hopen : last.untilYear = none)
    (hspan : Span.ofStretch? last = some span) :
    (zone.resolve rules).missing = none ∧
      ∃ built messages,
        (Draft.ofDirectives (zone.resolve rules).directives).build? id = some (built, messages) ∧
        ((∀ instant, Instant.earliest ≤ instant →
            before.untilPoint.localMillis year + 3 * Instant.millisPerDay < instant →
              built.stateAt instant = span.state) ↔
          (Draft.ofDirectives (zone.resolve rules).directives).TakesUp span.state) ∧
        (Instant.earliest + 2 * Instant.millisPerDay < before.untilPoint.localMillis year →
          before.fixedSave?.isSome = true ∨ before.untilPoint.clock ≠ .wall →
            (Draft.ofDirectives (zone.resolve rules).directives).TakesUp span.state) := by
  have hlist : zone.stretches = (earlier ++ [before]) ++ [last] := by simp [hstretches]
  have hmoderateClosed : ∀ stretch ∈ earlier ++ [before], stretch.Moderate rules := by
    intro stretch hstretch
    exact hmoderate stretch (hlist ▸ List.mem_append_left _ hstretch)
  obtain ⟨hmissing, hbuild⟩ := zone.build?_moderate id hmoderate
  let closed := (earlier ++ [before]).map (era zone.name rules)
  have hdraft : Draft.ofDirectives (zone.resolve rules).directives =
      ⟨closed ++ [era zone.name rules last]⟩ := by
    rw [ofDirectives_resolve zone hmissing, hlist, eras_concat hclosed hopen]
  have hclosedEras : ∀ made ∈ closed, made.cutover.isSome = true := by
    intro made hmade
    obtain ⟨stretch, hstretch, rfl⟩ := List.mem_map.mp hmade
    simpa [era, Stretch.cutover?] using hclosed stretch hstretch
  have harrival : (⟨closed ++ [era zone.name rules last]⟩ : Draft).arrival =
      Progress.walk false closed {} := by
    simp [Draft.arrival]
  obtain ⟨hsave, hoffset, hname, -, -⟩ := Span.ofStretch?_cases hspan
  have hera : era zone.name rules last = _ := era_of_fixedSave? hsave
  have hstate : span.state = ⟨(era zone.name rules last).standardOffset + span.save,
      (era zone.name rules last).standardOffset,
      Abbreviation.fixed last.format last.standardOffset span.save⟩ := by
    simp [hera, Span.state, Span.wallOffset, hoffset, hname]
  let bound := max (Instant.earliest + 1)
    (before.untilPoint.localMillis year + 3 * Instant.millisPerDay + 1)
  have hbound : (⟨closed ++ [era zone.name rules last]⟩ : Draft).arrival.Before bound := by
    rw [harrival]
    refine walk_closed_before hmoderateClosed hclosed hapart hyear zone.name (by omega) ?_
    simp only [bound, Instant.millisPerDay_eq]
    omega
  obtain ⟨hholds, htaken⟩ := Draft.stateAt_fixed_iff id hclosedEras
    (by simp [hera, Stretch.cutover?, hopen]) (by rw [hera]) (by rw [hera]) hbound
  rw [← hstate] at hholds htaken
  refine ⟨hmissing, _, _, hbuild, ?_, fun hearliest hsteady => ?_⟩
  · rw [hdraft]
    refine ⟨fun h => htaken (h bound (by omega) (by omega)), fun h instant hinstant hlater => ?_⟩
    exact hholds h instant (by omega)
  · rw [hdraft, Draft.TakesUp, harrival]
    intro newest hnewest
    exact Or.inl (walk_closed_arrives hmoderateClosed hclosed hapart hyear zone.name hearliest
      hsteady newest (List.mem_of_mem_head? hnewest))

def summerRules : RuleSet where
  first :=
    { name := "R"
      fromYear := 1990
      toYear := 9999
      type := none
      point := { month := 4, millisOfDay := 7200000 }
      save := 3600000
      letter := some "D" }
  others :=
    [{ name := "R"
       fromYear := 1990
       toYear := 9999
       type := none
       point := { month := 10, millisOfDay := 7200000 }
       save := 0
       letter := some "S" }]

def onlySummer (name : String) : Option RuleSet :=
  if name = "R" then some summerRules else none

def summerStretch (clock : Clock) : Stretch where
  standardOffset := 0
  savings := some "R"
  format := "S%sT"
  untilYear := some 1990
  untilPoint := { clock, month := 4, millisOfDay := 10800000 }

def finalStretch : Stretch where
  standardOffset := 10800000
  savings := none
  format := "XST"
  untilYear := none
  untilPoint := .startOfYear

/-- A zone that gives up summer time on its first day, when its clocks show three o'clock. -/
def summerZone (clock : Clock) : Zone where
  name := "Z"
  first := summerStretch clock
  others := [finalStretch]

theorem firstOfMonth_readable (clock : Clock) {month millisOfDay : Int}
    (hmonth : 1 ≤ month ∧ month ≤ 12)
    (htime : 0 ≤ millisOfDay ∧ millisOfDay < Instant.millisPerDay) :
    ({ clock, month, millisOfDay } : YearPoint).Readable :=
  ⟨hmonth, by norm_num, by norm_num, htime⟩

theorem summerRules_moderate : summerRules.Moderate where
  years := by decide
  points := by
    intro rule hrule
    rcases List.mem_pair.mp hrule with rfl | rfl
    · exact firstOfMonth_readable .wall (by decide) (by decide)
    · exact firstOfMonth_readable .wall (by decide) (by decide)
  saves := by decide
  standard := by decide

theorem summerZone_moderate (clock : Clock) :
    ∀ stretch ∈ (summerZone clock).stretches, stretch.Moderate onlySummer := by
  intro stretch hstretch
  rcases List.mem_pair.mp hstretch with rfl | rfl
  · exact
      { offset := (by decide : |(0 : Int)| < Instant.millisPerDay)
        ending := fun _ => firstOfMonth_readable clock (by decide) (by decide)
        savings := Or.inr ⟨"R", summerRules,
          Stretch.ruleName?_eq_some_iff.mpr ⟨rfl, by decide⟩, rfl, summerRules_moderate⟩ }
  · exact
      { offset := by decide
        ending := by simp [finalStretch]
        savings := Or.inl ⟨0, rfl, by decide⟩ }

/-- On the standard clock the summer has begun an hour before three o'clock, and the last stretch is
taken up. -/
theorem last_stretch_holds_in_summer :
    (summerZone .standard).stretches = [] ++ [summerStretch .standard, finalStretch] ∧
      (∀ stretch ∈ (summerZone .standard).stretches, stretch.Moderate onlySummer) ∧
      Span.ofStretch? finalStretch = some ⟨10800000, 0, "XST", none⟩ ∧
      ∃ built messages,
        (Draft.ofDirectives ((summerZone .standard).resolve onlySummer).directives).build? "Z" =
            some (built, messages) ∧
          ∀ instant, Instant.earliest ≤ instant →
            (summerStretch .standard).untilPoint.localMillis 1990 + 3 * Instant.millisPerDay <
              instant → built.stateAt instant = ⟨10800000, 10800000, "XST"⟩ := by
  have hspan : Span.ofStretch? finalStretch = some ⟨10800000, 0, "XST", none⟩ := by decide
  have hstretches : (summerZone .standard).stretches =
      [] ++ [summerStretch .standard, finalStretch] := rfl
  obtain ⟨-, built, messages, hbuild, hiff, hsteady⟩ :=
    last_stretch_holds_iff (summerZone .standard) onlySummer "Z" hstretches
      (summerZone_moderate .standard) (by decide) (by decide) rfl rfl hspan
  refine ⟨hstretches, summerZone_moderate .standard, hspan, built, messages, hbuild, ?_⟩
  exact hiff.mpr (hsteady (by decide +kernel) (Or.inr (by decide)))

/-- On the wall clock the summer begins at three o'clock, at the very instant at which the last
stretch is to begin. It never does: in 2001 the zone still has summer time. -/
theorem last_stretch_lost_in_summer :
    (summerZone .wall).stretches = [] ++ [summerStretch .wall, finalStretch] ∧
      (∀ stretch ∈ (summerZone .wall).stretches, stretch.Moderate onlySummer) ∧
      Span.ofStretch? finalStretch = some ⟨10800000, 0, "XST", none⟩ ∧
      (summerStretch .wall).untilPoint.localMillis 1990 + 3 * Instant.millisPerDay <
        1000000000000 ∧
      ∃ built, (Draft.ofDirectives ((summerZone .wall).resolve onlySummer).directives).build? "Z" =
          some (built, []) ∧ built.stateAt 1000000000000 = ⟨3600000, 0, "SDT"⟩ := by
  refine ⟨rfl, summerZone_moderate .wall, by decide, by decide +kernel,
    (Draft.ofDirectives ((summerZone .wall).resolve onlySummer).directives).toTimeZone "Z", ?_, ?_⟩
  · decide +kernel
  · decide +kernel

end Zone

end Source

end CivilTime
