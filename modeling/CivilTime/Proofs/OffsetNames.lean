import CivilTime.Proofs.Lookup
import CivilTime.Proofs.Stretches

/-!
Names that are offsets. Where every stretch of a zone has the mark for the offset as its format, the
zone shows the offset in effect as its name, or the undefined name.

A name is made when a stretch is resolved, from a standard offset and a saving that may both be
shifted; the offset that it is compared with is put together when the timeline is simulated. One
state takes its name and its offset from different places, the one before the first of rules that
all have a saving. Rules one of which has none never lead to it.
-/

namespace CivilTime

/-- The name of the state is the undefined one or its offset. -/
def Transition.ShowsOffset (transition : Transition) : Prop :=
  transition.name = Progress.undefinedName ∨
    transition.name = Abbreviation.ofOffset transition.wallOffset

def Recurrence.ShowsOffset (recurrence : Recurrence) (standardOffset : Int) : Prop :=
  recurrence.name = Abbreviation.ofOffset (standardOffset + recurrence.save)

structure Era.ShowsOffsets (era : Era) : Prop where
  fixed : ∀ fixed ∈ era.fixed,
    fixed.name = Abbreviation.ofOffset (era.standardOffset + fixed.save)
  rules : ∀ rule ∈ era.rules, rule.recurrence.ShowsOffset era.standardOffset
  opens : era.fixed.isSome = true ∨ ∃ rule ∈ era.rules, rule.recurrence.save = 0

theorem Era.stateOf_showsOffset {era : Era} {rule : YearlyRule}
    (h : rule.recurrence.ShowsOffset era.standardOffset) (millis : Int) :
    (era.stateOf rule millis).ShowsOffset :=
  Or.inr h

theorem Era.ShowsOffsets.firstTransition {era : Era} (h : era.ShowsOffsets) {start : Int}
    {first : Transition} (hfirst : era.firstTransition start = some first) :
    first.ShowsOffset := by
  cases hfixed : era.fixed with
  | some fixed =>
    rw [Era.firstTransition, hfixed] at hfirst
    obtain rfl := Option.some.inj hfirst
    exact Or.inr (h.fixed fixed hfixed)
  | none =>
    apply Era.firstTransition_forall _ _ (by simp [hfixed]) hfirst
    · intro rule hrule
      exact Era.stateOf_showsOffset (h.rules rule hrule) start
    · intro hsaved
      obtain ⟨rule, hrule, hsave⟩ := h.opens.resolve_left (by simp [hfixed])
      exact absurd hsave (hsaved rule hrule)

namespace Progress

/-- So far every state is named by its offset or undefined, and so is what the tail goes on with. -/
structure ShowsOffsets (progress : Progress) : Prop where
  history : ∀ entry ∈ progress.history, entry.ShowsOffset
  tail : ∀ tail ∈ progress.tail, ∀ side, (tail.recurrence side).ShowsOffset tail.standardOffset

theorem follow_showsOffsets {era : Era} {tailAllowed : Bool} {rules : List YearlyRule}
    {progress : Progress} (hrules : ∀ rule ∈ rules, rule.recurrence.ShowsOffset era.standardOffset)
    (h : progress.ShowsOffsets) : (follow era tailAllowed rules progress).ShowsOffsets := by
  fun_induction follow era tailAllowed rules progress with
  | case1 rules progress remaining hnext => exact h
  | case2 rules progress transition remaining hnext hjoined =>
    have hkept := Era.nextTransition_subset hnext
    obtain ⟨-, rule, hmem, rfl⟩ := Era.nextTransition_cases hnext
    have hshown := Era.stateOf_showsOffset (hrules rule (hkept hmem))
    exact ⟨History.push_forall h.history (hshown _), h.tail⟩
  | case3 rules progress transition remaining hnext hjoined ih =>
    have hkept := Era.nextTransition_subset hnext
    have hremaining := fun rule hrule => hrules rule (hkept hrule)
    obtain ⟨-, rule, hmem, rfl⟩ := Era.nextTransition_cases hnext
    have hshown := Era.stateOf_showsOffset (hremaining rule hmem)
    apply ih hremaining
    constructor
    · exact History.push_forall h.history (hshown _)
    · intro tail htail
      dsimp only at htail
      split at htail
      · obtain ⟨carried, rfl, hcarries⟩ := Era.tail?_cases htail
        intro side
        rw [hcarries.standardOffset, ← hcarries.recurrence side]
        apply hremaining
        cases side <;> simp
      · exact h.tail tail htail

theorem skip_showsOffsets {progress : Progress} (h : progress.ShowsOffsets) :
    progress.skip.ShowsOffsets := by
  rw [skip]
  split
  · exact h
  · next last older hhistory =>
    split
    · exact ⟨History.push_forall h.history (Or.inl rfl), h.tail⟩
    · exact h

theorem walk_showsOffsets {tails : Bool} {eras : List Era} {progress : Progress}
    (heras : ∀ era ∈ eras, era.isEmpty = true ∨ era.ShowsOffsets) (h : progress.ShowsOffsets) :
    (walk tails eras progress).ShowsOffsets := by
  induction eras generalizing progress with
  | nil => exact h
  | cons era rest ih =>
    have hrest := fun era hera => heras era (List.mem_cons_of_mem _ hera)
    rw [walk]
    split
    · exact ih hrest (skip_showsOffsets h)
    · next hfilled =>
      have hera := (heras era (by simp)).resolve_left hfilled
      split
      · exact ih hrest h
      · next first hfirst =>
        have hentered : (progress.enter era (tails && rest.isEmpty) first).ShowsOffsets := by
          apply follow_showsOffsets hera.rules
          exact ⟨History.push_forall h.history (hera.firstTransition hfirst), h.tail⟩
        dsimp only
        split
        · exact hentered
        · exact ih hrest ⟨hentered.history, hentered.tail⟩

theorem walk_history_ne_nil {tails : Bool} {eras : List Era} {progress : Progress}
    (h : progress.history ≠ []) : (walk tails eras progress).history ≠ [] := by
  induction eras generalizing progress with
  | nil => exact h
  | cons era rest ih =>
    rw [walk]
    split
    · apply ih
      rw [skip]
      split
      · exact h
      · split
        · exact History.push_ne_nil _ _
        · exact h
    · split
      · exact ih h
      · next first hfirst =>
        have hentered : (progress.enter era (tails && rest.isEmpty) first).history ≠ [] :=
          follow_history_ne_nil (History.push_ne_nil progress.history first)
        dsimp only
        split
        · exact hentered
        · exact ih hentered

/-- If the first era has a state to open with, the timeline has a transition. -/
theorem walk_cons_history_ne_nil {tails : Bool} {era : Era} {rest : List Era} {progress : Progress}
    (h : era.fixed.isSome = true ∨ ∃ rule ∈ era.rules, rule.recurrence.save = 0) :
    (walk tails (era :: rest) progress).history ≠ [] := by
  have hfilled : era.isEmpty = false := by
    rcases h with hsome | ⟨rule, hrule, -⟩
    · simp [Era.isEmpty, Option.isSome_iff_ne_none.mp hsome]
    · simp [Era.isEmpty, List.ne_nil_of_mem hrule]
  obtain ⟨first, hfirst⟩ :=
    Option.isSome_iff_exists.mp (Era.firstTransition_isSome h progress.millis)
  have hentered : (progress.enter era (tails && rest.isEmpty) first).history ≠ [] :=
    follow_history_ne_nil (History.push_ne_nil progress.history first)
  rw [walk, hfilled, hfirst]
  dsimp only
  split
  · contradiction
  · split
    · exact hentered
    · exact walk_history_ne_nil hentered

end Progress

theorem Tail.showsOffset {tail : Tail}
    (h : ∀ side, (tail.recurrence side).ShowsOffset tail.standardOffset) (instant : Int) :
    tail.nameAt instant = Abbreviation.ofOffset (tail.offsetAt instant) := by
  rw [nameAt, offsetAt, current]
  split
  · exact h .starting
  · exact h .ending

/-- From its first transition on, the zone of the timeline shows the offset in effect. -/
theorem Draft.zoneOf_showsOffset (id : String) {progress : Progress} (hsound : progress.Sound)
    (hfilled : progress.history ≠ []) (h : progress.ShowsOffsets) :
    ∃ first, (zoneOf id progress).transitions[0]? = some first ∧
      ∀ instant, first.millis ≤ instant →
        (zoneOf id progress).nameAt instant = Progress.undefinedName ∨
          (zoneOf id progress).nameAt instant =
            Abbreviation.ofOffset ((zoneOf id progress).offsetAt instant) := by
  obtain ⟨first, hfirst⟩ : ∃ first, progress.history.getLast? = some first :=
    Option.isSome_iff_exists.mp (by simpa using hfilled)
  refine ⟨first, by simp [zoneOf, hfilled, ← hfirst, List.getLast?_eq_head?_reverse,
    List.head?_eq_getElem?], ?_⟩
  intro instant hinstant
  cases htail : (zoneOf id progress).tailAt? instant with
  | some tail =>
    have hshown := h.tail tail (TimeZone.tail_eq_of_tailAt? htail)
    simp only [TimeZone.nameAt, TimeZone.offsetAt, htail]
    exact Or.inr (Tail.showsOffset hshown instant)
  | none =>
    obtain ⟨entry, hentry⟩ : ∃ entry, progress.history.at? instant = some entry := by
      apply Option.isSome_iff_exists.mp
      rw [History.at?, List.find?_isSome]
      exact ⟨first, List.mem_of_getLast? hfirst, by simpa using hinstant⟩
    have hshown := h.history entry (List.mem_of_find?_eq_some hentry)
    rw [← zoneOf_transitionAt? id hsound hfilled] at hentry
    simp only [TimeZone.nameAt, TimeZone.offsetAt, htail, hentry, Option.map_some, Option.getD_some]
    exact hshown

namespace Source

/-- The mark for the offset has no halves to change places. -/
theorem RuleSet.resolvedFormat_offset (set : RuleSet) : set.resolvedFormat "%z" = "%z" := by
  rw [resolvedFormat]
  split
  · rfl
  · rfl

namespace Zone

variable {rules : String → Option RuleSet}

theorem era_showsOffsets (name : String) {stretch : Stretch} (hformat : stretch.format = "%z")
    (hstandard : stretch.HasStandard rules) : (era name rules stretch).ShowsOffsets := by
  have hopens := era_opens name hstandard
  rcases hstandard with ⟨save, hfixed⟩ | ⟨savings, set, hname, hset, -⟩
  · rw [era_of_fixedSave? hfixed] at hopens ⊢
    refine ⟨?_, by simp, hopens⟩
    intro fixed hsome
    obtain rfl := Option.some.inj hsome
    simp [Abbreviation.fixed, hformat]
  · rw [era_of_set hname hset] at hopens ⊢
    refine ⟨by simp, ?_, hopens⟩
    intro rule hrule
    obtain ⟨source, -, rfl⟩ := List.mem_map.mp hrule
    rw [Recurrence.ShowsOffset, Rule.yearly, hformat, RuleSet.resolvedFormat_offset]
    rfl

theorem eras_showsOffsets (name : String) {stretches : List Stretch}
    (h : ∀ stretch ∈ stretches, stretch.format = "%z" ∧ stretch.HasStandard rules) :
    ∀ era ∈ eras name rules stretches, era.isEmpty = true ∨ era.ShowsOffsets := by
  induction stretches with
  | nil => simp [eras, Era.isEmpty]
  | cons stretch rest ih =>
    obtain ⟨hformat, hstandard⟩ := h stretch (by simp)
    have hshows := era_showsOffsets name hformat hstandard
    rw [eras]
    split
    · intro made hmade
      obtain rfl := List.mem_singleton.mp hmade
      exact Or.inr hshows
    · intro made hmade
      rcases List.mem_cons.mp hmade with rfl | hlater
      · exact Or.inr hshows
      · exact ih (fun other hother => h other (by simp [hother])) made hlater

/-- A zone in the format of offsets whose stretches are under fixed savings or under rules that also
hold without saving: from its first transition on, forever, its name is the undefined one or the
offset in effect. -/
theorem built_shows_offsets (zone : Zone) (rules : String → Option RuleSet) (id : String)
    (h : ∀ stretch ∈ zone.stretches, stretch.format = "%z" ∧ stretch.HasStandard rules) :
    (zone.resolve rules).missing = none ∧
      ((∀ stretch ∈ zone.stretches, stretch.HasMonths rules) →
        ((Draft.ofDirectives (zone.resolve rules).directives).build? id).isSome = true) ∧
      ∀ built messages,
        (Draft.ofDirectives (zone.resolve rules).directives).build? id = some (built, messages) →
          ∃ first, built.transitions[0]? = some first ∧
            ∀ instant, first.millis ≤ instant →
              built.nameAt instant = "??" ∨
                built.nameAt instant = Abbreviation.ofOffset (built.offsetAt instant) := by
  have hthere : ∀ stretch ∈ zone.stretches,
      (resolveSavings zone.name rules stretch).missing = none :=
    fun stretch hstretch => missing_of_hasStandard (h stretch hstretch).2
  have hmissing : (zone.resolve rules).missing = none :=
    resolveStretches_missing fun stretch hstretch => hthere stretch (reached_subset _ hstretch)
  refine ⟨hmissing, ?_, ?_⟩
  · intro hmonths
    rw [zone.build?_of_hasMonths id hthere hmonths]
    rfl
  · intro built messages hbuilt
    have heras := eras_showsOffsets zone.name h
    have hfilled : (Progress.walk true (eras zone.name rules zone.stretches) {}).history ≠ [] := by
      have hopens := era_opens zone.name (h zone.first (by simp [stretches])).2
      rw [stretches, eras]
      split
      · exact Progress.walk_cons_history_ne_nil hopens
      · exact Progress.walk_cons_history_ne_nil hopens
    have hstart : Progress.ShowsOffsets {} := ⟨by simp, by simp⟩
    obtain ⟨-, rfl⟩ := Draft.build?_eq_some hbuilt
    rw [ofDirectives_resolve zone hmissing]
    exact Draft.zoneOf_showsOffset id (Progress.walk_sound Progress.start_sound) hfilled
      (Progress.walk_showsOffsets heras hstart)

def winterRules : RuleSet where
  first :=
    { name := "W"
      fromYear := 1971
      toYear := 9999
      type := none
      point := { month := 10, millisOfDay := 7200000 }
      save := -3600000
      letter := none }
  others :=
    [{ name := "W"
       fromYear := 1972
       toYear := 9999
       type := none
       point := { month := 4, millisOfDay := 3600000 }
       save := 0
       letter := none }]

def onlyWinter (name : String) : Option RuleSet :=
  if name = "W" then some winterRules else none

def winterZone : Zone where
  name := "Z"
  first :=
    { standardOffset := 3600000
      savings := some "W"
      format := "%z"
      untilYear := some 1990
      untilPoint := { month := 7 } }
  others :=
    [{ standardOffset := -12600000
       savings := some "0:30"
       format := "%z"
       untilYear := some 1991
       untilPoint := .startOfYear },
     { standardOffset := 3600000
       savings := some "W"
       format := "%z"
       untilYear := none
       untilPoint := .startOfYear }]

theorem built_shows_offsets_in_winter :
    (∀ stretch ∈ winterZone.stretches,
      stretch.format = "%z" ∧ stretch.HasStandard onlyWinter ∧ stretch.HasMonths onlyWinter) ∧
    (winterZone.resolve onlyWinter).missing = none ∧
    ∃ built messages,
      (Draft.ofDirectives (winterZone.resolve onlyWinter).directives).build? "Z" =
        some (built, messages) ∧
      ∃ first, built.transitions[0]? = some first ∧
        ∀ instant, first.millis ≤ instant →
          built.nameAt instant = "??" ∨
            built.nameAt instant = Abbreviation.ofOffset (built.offsetAt instant) := by
  have hrules : ∀ rule ∈ winterRules.rules, rule.fromYear ≤ rule.toYear ∧
      rule.point.hasMonth = true := by decide
  have hwinter : ∀ stretch : Stretch, stretch.savings = some "W" → stretch.HasStandard onlyWinter :=
    fun stretch hsavings => Or.inr ⟨"W", winterRules,
      Stretch.ruleName?_eq_some_iff.mpr ⟨hsavings, by decide⟩, rfl,
      fun rule hrule => (hrules rule hrule).1, by decide⟩
  have hmonths : ∀ stretch : Stretch, stretch.untilPoint.hasMonth = true →
      stretch.HasMonths onlyWinter := by
    intro stretch hending
    refine ⟨fun _ => hending, fun name hname set hset rule hrule => ?_⟩
    simp only [onlyWinter, Option.mem_def, Option.ite_none_right_eq_some, Option.some.injEq] at hset
    obtain ⟨-, rfl⟩ := hset
    exact (hrules rule hrule).2
  have hall : ∀ stretch ∈ winterZone.stretches,
      stretch.format = "%z" ∧ stretch.HasStandard onlyWinter ∧ stretch.HasMonths onlyWinter := by
    intro stretch hstretch
    simp only [stretches, winterZone, List.mem_cons, List.not_mem_nil, or_false] at hstretch
    rcases hstretch with rfl | rfl | rfl
    · exact ⟨rfl, hwinter _ rfl, hmonths _ (by decide)⟩
    · exact ⟨rfl, Or.inl ⟨1800000, by decide⟩, hmonths _ (by decide)⟩
    · exact ⟨rfl, hwinter _ rfl, hmonths _ (by decide)⟩
  obtain ⟨hmissing, hbuilt, hshown⟩ := built_shows_offsets winterZone onlyWinter "Z"
    fun stretch hstretch => ⟨(hall stretch hstretch).1, (hall stretch hstretch).2.1⟩
  obtain ⟨⟨built, messages⟩, hsome⟩ := Option.isSome_iff_exists.mp
    (hbuilt fun stretch hstretch => (hall stretch hstretch).2.2)
  exact ⟨hall, hmissing, built, messages, hsome, hshown built messages hsome⟩

end Zone

end Source

end CivilTime
