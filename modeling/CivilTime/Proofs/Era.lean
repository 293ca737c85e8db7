import CivilTime.Proofs.History
import CivilTime.Proofs.Tail
import CivilTime.Timeline.Era

/-!
What the rules of an era bring about. A rule occurs only from its first year on; where its point
stays in the year, no occurrence in its years is missed. One step of an era takes the first of the
next occurrences, and of two at the same instant the one listed later.
-/

namespace CivilTime

namespace YearlyRule

/-- The instant from which a rule looks for its next occurrence: where it is asked, but not before
the start of its first year. -/
theorem next_eq (rule : YearlyRule) (instant standardOffset save : Int) :
    rule.next instant standardOffset save =
      let millis := rule.recurrence.point.next
        (max instant (Instant.startOfYear rule.fromYear - (standardOffset + save) - 1))
        standardOffset save
      if instant < millis ∧ rule.toYear < Instant.yearOf (millis + (standardOffset + save)) then
        instant
      else millis := by
  have hyear := Instant.le_yearOf_iff (instant + (standardOffset + save)) rule.fromYear
  simp only [next]
  split
  · next hbefore => rw [max_eq_right (by omega)]
  · next hbegun => rw [max_eq_left (by omega)]

theorem exists_next_eq {rule : YearlyRule} {instant standardOffset save : Int}
    (h : instant < rule.next instant standardOffset save) :
    ∃ year, rule.next instant standardOffset save =
      rule.recurrence.point.instantIn year standardOffset save := by
  rw [next_eq] at h ⊢
  dsimp only at h ⊢
  split at h
  · exact absurd h (lt_irrefl instant)
  · next hkept =>
    rw [if_neg hkept]
    exact rule.recurrence.point.exists_next_eq _ standardOffset save

section InYear

variable {rule : YearlyRule} (hstays : rule.recurrence.point.StaysInYear)

include hstays

theorem fromYear_le_next {instant standardOffset save : Int}
    (h : instant < rule.next instant standardOffset save) :
    Instant.startOfYear rule.fromYear ≤
      rule.next instant standardOffset save + (standardOffset + save) := by
  have hnext := hstays.lt_next
    (max instant (Instant.startOfYear rule.fromYear - (standardOffset + save) - 1))
    standardOffset save
  rw [next_eq] at h ⊢
  dsimp only at h ⊢
  split at h
  · exact absurd h (lt_irrefl instant)
  · next hkept =>
    rw [if_neg hkept]
    omega

/-- No occurrence from the first year on is passed over. -/
theorem next_le {instant standardOffset save year : Int}
    (hlater : instant < rule.recurrence.point.instantIn year standardOffset save)
    (hbegun : Instant.startOfYear rule.fromYear ≤
      rule.recurrence.point.instantIn year standardOffset save + (standardOffset + save)) :
    rule.next instant standardOffset save ≤
      rule.recurrence.point.instantIn year standardOffset save := by
  have hnext := hstays.next_le
    (max instant (Instant.startOfYear rule.fromYear - (standardOffset + save) - 1))
    standardOffset save
    (show _ < rule.recurrence.point.instantIn year standardOffset save by omega)
  rw [next_eq]
  dsimp only
  split
  · exact hlater.le
  · exact hnext

/-- A rule occurs again if its last year is far enough off. -/
theorem lt_next {instant standardOffset save : Int}
    (hinstant : instant + (standardOffset + save) + 732 * Instant.millisPerDay ≤
      Instant.startOfYear (rule.toYear + 1))
    (hfrom : Instant.startOfYear rule.fromYear + 732 * Instant.millisPerDay ≤
      Instant.startOfYear (rule.toYear + 1)) :
    instant < rule.next instant standardOffset save := by
  have hlt := hstays.lt_next
    (max instant (Instant.startOfYear rule.fromYear - (standardOffset + save) - 1))
    standardOffset save
  have hsoon := hstays.next_lt
    (max instant (Instant.startOfYear rule.fromYear - (standardOffset + save) - 1))
    standardOffset save
  rw [next_eq]
  dsimp only
  rw [if_neg]
  · omega
  · rintro ⟨-, hlate⟩
    have hyear := (Instant.le_yearOf_iff _ (rule.toYear + 1)).mp hlate
    omega

end InYear

end YearlyRule

namespace Era

theorem soonest_pair (first second : Int × YearlyRule) :
    soonest [first, second] = if second.1 ≤ first.1 then some second else some first :=
  rfl

@[simp]
theorem stateOf_save (era : Era) (rule : YearlyRule) (millis : Int) :
    (era.stateOf rule millis).save = rule.recurrence.save := by
  simp [stateOf, Transition.save]

theorem upcoming_rules (era : Era) (rules : List YearlyRule) (instant save : Int) :
    (era.upcoming rules instant save).map Prod.snd =
      rules.filter (fun rule => instant < rule.next instant era.standardOffset save) := by
  simp [upcoming, List.filter_map, Function.comp_def]

/-- Everything a step of an era can do: it drops the rules that do not occur again and lets one of
the others occur. -/
theorem nextTransition_cases {era : Era} {rules remaining : List YearlyRule} {instant save : Int}
    {transition : Transition}
    (h : era.nextTransition rules instant save = (some transition, remaining)) :
    remaining = rules.filter (fun rule => instant < rule.next instant era.standardOffset save) ∧
      ∃ rule ∈ remaining, transition =
        era.stateOf rule (rule.next instant era.standardOffset save) := by
  have htransition := congrArg Prod.fst h
  have hrules := congrArg Prod.snd h
  simp only [nextTransition] at htransition hrules
  refine ⟨hrules.symm.trans (era.upcoming_rules rules instant save), ?_⟩
  split at htransition
  · contradiction
  · next millis rule hsoonest =>
    have hmem := soonest_mem hsoonest
    have hnext : millis = rule.next instant era.standardOffset save := by
      simp only [upcoming, List.mem_filter, List.mem_map] at hmem
      obtain ⟨⟨listed, -, hpair⟩, -⟩ := hmem
      cases hpair
      rfl
    refine ⟨rule, hrules ▸ List.mem_map_of_mem hmem, ?_⟩
    rw [← hnext]
    split at htransition
    · contradiction
    · split at htransition
      · split at htransition
        · contradiction
        · exact (Option.some.inj htransition).symm
      · exact (Option.some.inj htransition).symm

theorem nextTransition_subset {era : Era} {rules remaining : List YearlyRule} {instant save : Int}
    {transition : Transition}
    (h : era.nextTransition rules instant save = (some transition, remaining)) :
    remaining ⊆ rules := by
  rw [(nextTransition_cases h).1]
  exact List.filter_subset_self rules

/-- A step of an open era with two rules that both occur again. The sooner one fires, and of two at
the same instant the second. -/
theorem nextTransition_pair {era : Era} (hopen : era.cutover = none)
    (rule : Tail.Side → YearlyRule) {instant save : Int}
    (hlater : ∀ side, instant < (rule side).next instant era.standardOffset save) :
    ∃ fired : Tail.Side,
      era.nextTransition [rule .starting, rule .ending] instant save =
        (if limit ≤ (rule fired).next instant era.standardOffset save then none
          else some (era.stateOf (rule fired)
            ((rule fired).next instant era.standardOffset save)),
          [rule .starting, rule .ending]) ∧
      (rule fired).next instant era.standardOffset save ≤
        (rule fired.other).next instant era.standardOffset save ∧
      (fired = .starting → (rule .starting).next instant era.standardOffset save <
        (rule .ending).next instant era.standardOffset save) := by
  have hupcoming : era.upcoming [rule .starting, rule .ending] instant save =
      [((rule .starting).next instant era.standardOffset save, rule .starting),
        ((rule .ending).next instant era.standardOffset save, rule .ending)] := by
    simp [upcoming, hlater]
  by_cases hending : (rule .ending).next instant era.standardOffset save ≤
      (rule .starting).next instant era.standardOffset save
  · refine ⟨.ending, ?_, hending, by simp⟩
    simp [nextTransition, hupcoming, soonest_pair, hending, upperLimit, hopen]
  · refine ⟨.starting, ?_, (not_le.mp hending).le, fun _ => not_le.mp hending⟩
    simp [nextTransition, hupcoming, soonest_pair, hending, upperLimit, hopen]

private theorem some_of_orElse {α : Type} {first second : Option α} {a : α}
    (h : (first <|> second) = some a) : first = some a ∨ second = some a := by
  cases first with
  | none => exact Or.inr h
  | some b => exact Or.inl h

section Start

variable {era : Era} {start : Int} {P : Transition → Prop}
  (hrule : ∀ rule ∈ era.rules, P (era.stateOf rule start))
  (hunsaved : (∀ rule ∈ era.rules, rule.recurrence.save ≠ 0) → ∀ rule ∈ era.rules,
    P { era.stateOf rule start with wallOffset := era.standardOffset })

include hrule hunsaved

/-- The state found by following the rules is the state of a rule; it is one without its saving
only if all of them have one. -/
theorem stateAtStart_forall {rules : List YearlyRule} {instant save : Int}
    {state : Option Transition} {found : Transition} (hrules : rules ⊆ era.rules)
    (hstate : ∀ transition ∈ state, P transition)
    (hfound : era.stateAtStart start rules instant save state = some found) : P found := by
  have hdefault : era.defaultTransition start = some found → P found := by
    intro h
    obtain ⟨rule, hfind, rfl⟩ := Option.map_eq_some_iff.mp h
    exact hrule rule (List.mem_of_find?_eq_some hfind)
  fun_induction era.stateAtStart start rules instant save state with
  | case1 rules instant save state remaining hnext =>
    rcases some_of_orElse hfound with h | h
    · exact hstate found h
    · exact hdefault h
  | case2 rules instant save state transition remaining hnext hequal =>
    have hkept := nextTransition_subset hnext
    obtain ⟨-, rule, hmem, rfl⟩ := nextTransition_cases hnext
    obtain rfl := Option.some.inj hfound
    exact hrule rule (hrules (hkept hmem))
  | case3 rules instant save state transition remaining hnext hequal hlater =>
    have hkept := nextTransition_subset hnext
    obtain ⟨-, rule, hmem, rfl⟩ := nextTransition_cases hnext
    rcases some_of_orElse hfound with h | h
    · exact hstate found h
    cases hnone : era.defaultTransition start with
    | some default =>
      rw [hnone] at h
      exact hdefault (hnone.trans h)
    | none =>
      rw [hnone] at h
      obtain rfl := Option.some.inj h
      have hsaved : ∀ rule ∈ era.rules, rule.recurrence.save ≠ 0 := by
        simpa [defaultTransition] using hnone
      exact hunsaved hsaved rule (hrules (hkept hmem))
  | case4 rules instant save state transition remaining hnext hequal hlater ih =>
    have hkept := List.Subset.trans (nextTransition_subset hnext) hrules
    obtain ⟨-, rule, hmem, rfl⟩ := nextTransition_cases hnext
    refine ih hkept ?_ hfound
    intro moved hmoved
    obtain rfl := Option.some.inj hmoved
    exact hrule rule (hkept hmem)

/-- The state with which an era opens is the fixed one, or that of a rule, without its saving only
if all rules have one. -/
theorem firstTransition_forall {first : Transition}
    (hfixed : ∀ fixed ∈ era.fixed,
      P ⟨start, fixed.name, era.standardOffset + fixed.save, era.standardOffset⟩)
    (h : era.firstTransition start = some first) : P first := by
  rw [firstTransition] at h
  split at h
  · next fixed hsome =>
    obtain rfl := Option.some.inj h
    exact hfixed fixed hsome
  · exact stateAtStart_forall hrule hunsaved (List.Subset.refl era.rules) (by simp) h

end Start

theorem firstTransition_millis {era : Era} {start : Int} {first : Transition}
    (h : era.firstTransition start = some first) : first.millis = start :=
  firstTransition_forall (P := fun state => state.millis = start) (fun _ _ => rfl)
    (fun _ _ _ => rfl) (fun _ _ => rfl) h

/-- The saving with which an era opens is the fixed one, that of a rule, or none. -/
theorem firstTransition_save {era : Era} {P : Int → Prop} (hzero : era.rules ≠ [] → P 0)
    (hfixed : ∀ fixed ∈ era.fixed, P fixed.save)
    (hrules : ∀ rule ∈ era.rules, P rule.recurrence.save) {start : Int} {first : Transition}
    (h : era.firstTransition start = some first) : P first.save := by
  refine firstTransition_forall (P := fun state => P state.save) (fun rule hrule => ?_)
    (fun _ rule hrule => ?_) (fun fixed hsome => ?_) h
  · rw [stateOf_save]
    exact hrules rule hrule
  · simpa [Transition.save, stateOf] using hzero (List.ne_nil_of_mem hrule)
  · simpa [Transition.save] using hfixed fixed hsome

/-- An era with a fixed saving, or with a rule that has none, opens with some state. -/
theorem firstTransition_isSome {era : Era}
    (h : era.fixed.isSome = true ∨ ∃ rule ∈ era.rules, rule.recurrence.save = 0) (start : Int) :
    (era.firstTransition start).isSome = true := by
  rw [firstTransition]
  split
  · rfl
  · next hnone =>
    obtain ⟨rule, hrule, hsave⟩ := h.resolve_left (by simp [hnone])
    obtain ⟨default, hdefault⟩ : ∃ default, era.defaultTransition start = some default := by
      have hfind : (era.rules.find? fun rule => rule.recurrence.save = 0).isSome = true := by
        rw [List.find?_isSome]
        exact ⟨rule, hrule, by simpa using hsave⟩
      obtain ⟨found, hfound⟩ := Option.isSome_iff_exists.mp hfind
      exact ⟨_, by rw [defaultTransition, hfound]; rfl⟩
    fun_induction era.stateAtStart start era.rules Instant.earliest 0 none with
    | case1 rules instant save state remaining hnext => simp [hdefault]
    | case2 rules instant save state transition remaining hnext hequal => rfl
    | case3 rules instant save state transition remaining hnext hequal hlater => simp [hdefault]
    | case4 rules instant save state transition remaining hnext hequal hlater ih => exact ih

/-- A tail stands for two rules, which recur forever and switch between different states. -/
structure Carries (era : Era) (tail : Tail) (rule : Tail.Side → YearlyRule) : Prop where
  standardOffset : tail.standardOffset = era.standardOffset
  recurrence : ∀ side, (rule side).recurrence = tail.recurrence side
  forever : ∀ side, (rule side).toYear = Directive.foreverYear
  switches : tail.starting.save ≠ tail.ending.save ∨ tail.starting.name ≠ tail.ending.name

theorem tail?_cases {era : Era} {rules : List YearlyRule} {tail : Tail}
    (h : era.tail? rules = some tail) :
    ∃ rule : Tail.Side → YearlyRule, rules = [rule .starting, rule .ending] ∧
      era.Carries tail rule := by
  rw [tail?.eq_def] at h
  split at h
  · next starting ending =>
    split at h
    · next hforever =>
      obtain rfl := Option.some.inj h
      refine ⟨Tail.Side.choose starting ending, rfl, rfl, ?_, ?_, hforever.2.2⟩
      · intro side
        cases side <;> rfl
      · intro side
        cases side
        · exact hforever.1
        · exact hforever.2.1
    · contradiction
  · contradiction

namespace Carries

variable {era : Era} {tail : Tail} {rule : Tail.Side → YearlyRule} (h : era.Carries tail rule)

include h

theorem stateOf_eq (side : Tail.Side) (millis : Int) :
    era.stateOf (rule side) millis = tail.entry side millis := by
  simp [stateOf, Tail.entry, h.standardOffset, h.recurrence]

theorem sameState_entry {first second : Tail.Side} {millis other : Int}
    (hsame : (tail.entry first millis).sameState (tail.entry second other) = true) :
    first = second :=
  Tail.Switches.side_eq h.switches hsame

theorem side_eq_of_entry_eq {first second : Tail.Side} {millis other : Int}
    (heq : tail.entry first millis = tail.entry second other) : first = second := by
  apply h.sameState_entry
  rw [heq]
  exact Transition.sameState_refl (tail.entry second other)

/-- Under the saving of the other rule, a rule occurs where the tail says. -/
theorem next_occurrence {side : Tail.Side} {instant : Int}
    (hlater : instant < (rule side).next instant era.standardOffset (tail.saveBefore side)) :
    ∃ year, (rule side).next instant era.standardOffset (tail.saveBefore side) =
      tail.occurrence side year := by
  obtain ⟨year, hyear⟩ := YearlyRule.exists_next_eq hlater
  exact ⟨year, by rw [hyear, Tail.occurrence, h.recurrence, h.standardOffset]⟩

end Carries

end Era

end CivilTime
