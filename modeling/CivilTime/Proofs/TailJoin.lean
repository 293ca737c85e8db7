import CivilTime.Proofs.LastEra
import CivilTime.Proofs.Seasons

/-!
How a tail is joined to the transitions before it. It is attached as soon as its two rules are the
only ones left; from there on they fire alone, and the first firing that is added ends the
timeline. If that firing follows one of the other rule, the last transition is an occurrence of the
tail, and both rules have fired. They are in force from there on if it is not in a year before the
first one of either; otherwise the tail answers for a rule that is not.
-/

namespace CivilTime

/-- An occurrence is in a year not before another one: by the year for which it is computed, and by
its date on its own clock. -/
def YearPoint.NotBefore (point : YearPoint) (year first : Int) : Prop :=
  first ≤ year ∧ first ≤ Instant.yearOf (point.localMillis year)

namespace Tail

/-- The clock on which an occurrence is located, as its distance from universal time. -/
def clockBefore (tail : Tail) (side : Side) : Int :=
  (tail.recurrence side).point.offset tail.standardOffset (tail.saveBefore side)

theorem notBefore_iff (tail : Tail) (side : Side) (year first : Int) :
    (tail.recurrence side).point.NotBefore year first ↔
      tail.occurrence side first ≤ tail.occurrence side year ∧
        Instant.startOfYear first ≤ tail.occurrence side year + tail.clockBefore side := by
  have hlocal : tail.occurrence side year + tail.clockBefore side =
      (tail.recurrence side).point.localMillis year := sub_add_cancel _ _
  rw [YearPoint.NotBefore, (tail.occurrence_strictMono side).le_iff_le, hlocal,
    Instant.le_yearOf_iff]

end Tail

namespace Draft

open Tail (Side)

/-- How a tail has come to a draft: the attaching firing leaves its two rules, and the way goes on
from there. -/
structure Attached (draft : Draft) (tail : Tail) (rule : Side → YearlyRule) (attaching : Firing)
    (later : List Firing) : Prop where
  tailFirings : draft.tailFirings tail = attaching :: later
  resumes : ∃ offered,
    draft.lastEra.firings offered attaching.history attaching.last = attaching :: later
  remaining : attaching.remaining = [rule .starting, rule .ending]
  carries : draft.lastEra.Carries tail rule
  replays : draft.simulate true = Progress.replay draft.lastEra true later
    ⟨attaching.after, some tail, attaching.transition.millis, attaching.transition.save⟩

theorem LaidOut.exists_attached {draft : Draft} (h : draft.LaidOut) {tail : Tail}
    (htail : (draft.simulate true).tail = some tail) :
    ∃ rule attaching later, draft.Attached tail rule attaching later := by
  rcases h.simulate_cases true with ⟨-, hnone⟩ | ⟨first, hfirst, hsimulate⟩
  · rw [htail] at hnone
    contradiction
  rw [hsimulate] at htail
  obtain ⟨earlier, attaching, later, hsplit, hearlier, hattaching, hreplay⟩ :=
    Progress.replay_attach rfl htail
  obtain ⟨rule, hremaining, hcarries⟩ := Era.tail?_cases hattaching
  obtain ⟨offered, -, hnext, hlater⟩ := Era.firings_split (P := fun _ _ _ => True)
    (fun _ _ _ _ => trivial) trivial ((lastFirings_eq hfirst).symm.trans hsplit)
  refine ⟨rule, attaching, later, ?_, ⟨offered, ?_⟩, hremaining, hcarries,
    hsimulate.trans hreplay⟩
  · rw [Draft.tailFirings, hsplit, List.dropWhile_append_of_pos]
    · simp [hattaching]
    · intro firing hfiring
      simp [hearlier firing hfiring]
  · rw [Era.firings_of_next hnext, hlater]

namespace Attached

variable {draft : Draft} {tail : Tail} {rule : Side → YearlyRule} {attaching : Firing}
  {later : List Firing} (h : draft.Attached tail rule attaching later)

include h

theorem exists_side {firing : Firing} (hfiring : firing ∈ draft.tailFirings tail) :
    ∃ side, firing.OfRule draft.lastEra (rule side) := by
  obtain ⟨offered, hresumes⟩ := h.resumes
  rw [h.tailFirings] at hfiring
  obtain ⟨-, -, -, hlater⟩ := Era.firings_eq_cons hresumes
  have hremaining : firing.remaining ⊆ [rule .starting, rule .ending] := by
    rw [← h.remaining]
    rcases List.mem_cons.mp hfiring with rfl | hmem
    · exact List.Subset.refl _
    · rw [hlater] at hmem
      exact (Era.firings_forward hmem).2
  obtain ⟨offered, -, hnext⟩ := Era.mem_firings (P := fun _ _ _ => True)
    (fun _ _ _ _ => trivial) trivial (hresumes ▸ hfiring)
  obtain ⟨fired, hmem, hfired⟩ := hnext.exists_rule
  rcases List.mem_pair.mp (hremaining hmem) with rfl | rfl
  · exact ⟨.starting, hfired⟩
  · exact ⟨.ending, hfired⟩

theorem brings {firing : Firing} {side : Side} (hside : firing.OfRule draft.lastEra (rule side)) :
    tail.Brings side firing.transition :=
  hside.state.trans (h.carries.stateOf_eq side _)

theorem side_unique {firing : Firing} {side other : Side}
    (hside : firing.OfRule draft.lastEra (rule side))
    (hother : firing.OfRule draft.lastEra (rule other)) : side = other :=
  h.carries.side_eq_of_entry_eq ((h.brings hside).symm.trans (h.brings hother))

theorem increasing : (draft.tailFirings tail).Pairwise
    fun earlier later => earlier.transition.millis < later.transition.millis := by
  obtain ⟨offered, hresumes⟩ := h.resumes
  rw [h.tailFirings, ← hresumes]
  exact draft.lastEra.firings_increasing _ _ _

theorem goes_on {before after : List Firing} {firing : Firing}
    (hsplit : draft.tailFirings tail = before ++ firing :: after) :
    after = draft.lastEra.firings firing.remaining firing.after firing.transition := by
  obtain ⟨offered, hresumes⟩ := h.resumes
  rw [h.tailFirings, ← hresumes] at hsplit
  obtain ⟨-, -, -, hafter⟩ := Era.firings_split (P := fun _ _ _ => True)
    (fun _ _ _ _ => trivial) trivial hsplit
  exact hafter

theorem consecutive {before after : List Firing} {previous firing : Firing}
    (hsplit : draft.tailFirings tail = before ++ previous :: firing :: after) :
    firing.last = previous.transition ∧ firing.history = previous.after := by
  obtain ⟨hhistory, hlast, -, -⟩ := Era.firings_eq_cons (h.goes_on hsplit).symm
  exact ⟨hlast, hhistory⟩

/-- A firing right after one of the other rule is an occurrence of the tail. -/
theorem occurs_after_other {joining : Firing} {side : Side}
    (hmem : joining ∈ draft.tailFirings tail) (hbrings : tail.Brings side joining.transition)
    (hother : tail.Brings side.other joining.last) :
    ∃ year, joining.transition.millis = tail.occurrence side year := by
  obtain ⟨fired, hfired⟩ := h.exists_side hmem
  obtain rfl : fired = side :=
    h.carries.side_eq_of_entry_eq ((h.brings hfired).symm.trans hbrings)
  have hsave : joining.last.save = tail.saveBefore fired := hother.save_eq
  obtain ⟨year, hyear⟩ := hfired.exists_year
  refine ⟨year, ?_⟩
  rw [hyear, hsave, Tail.occurrence, h.carries.recurrence, h.carries.standardOffset]

/-- A firing that is added where the transition before it is shown is one of the other rule than the
firing before it, and so it is an occurrence of the tail. -/
theorem switches {before after : List Firing} {previous joining : Firing}
    (hsplit : draft.tailFirings tail = before ++ previous :: joining :: after)
    (hadded : joining.added = true) (hshows : joining.history.Shows joining.last) :
    ∃ side, previous.OfRule draft.lastEra (rule side.other) ∧
      joining.OfRule draft.lastEra (rule side) ∧
      joining.last.save = tail.saveBefore side ∧
      ∃ year, joining.transition.millis = tail.occurrence side year := by
  obtain ⟨hlast, -⟩ := h.consecutive hsplit
  obtain ⟨earlierSide, hprevious⟩ := h.exists_side
    (show previous ∈ draft.tailFirings tail by simp [hsplit])
  obtain ⟨side, hjoining⟩ := h.exists_side
    (show joining ∈ draft.tailFirings tail by simp [hsplit])
  have hchanges : ¬ joining.transition.sameState previous.transition = true := by
    rw [← hlast]
    exact hshows.not_sameState_of_added hadded
  obtain rfl : earlierSide = side.other := by
    rcases earlierSide.eq_or_eq_other side with rfl | hother
    · refine absurd ?_ hchanges
      rw [h.brings hjoining, h.brings hprevious]
      exact Transition.sameState_refl (tail.entry earlierSide 0)
    · exact hother
  have hother : tail.Brings side.other joining.last := hlast ▸ h.brings hprevious
  exact ⟨side, hprevious, hjoining, hother.save_eq,
    h.occurs_after_other (by simp [hsplit]) (h.brings hjoining) hother⟩

end Attached

def joining? (draft : Draft) (tail : Tail) : Option Firing :=
  ((draft.tailFirings tail).drop 1).find? Firing.added

/-- A firing is added once the tail is attached, and the transition before it is shown. -/
def Joined (draft : Draft) (tail : Tail) : Prop :=
  ∃ joining ∈ draft.joining? tail, joining.history.Shows joining.last

instance (draft : Draft) (tail : Tail) : Decidable (draft.Joined tail) :=
  inferInstanceAs (Decidable (∃ joining ∈ draft.joining? tail, joining.history.Shows joining.last))

def tailRules (draft : Draft) (tail : Tail) : List YearlyRule :=
  ((draft.tailFirings tail).head?.map Firing.remaining).getD []

/-- The last transition is an occurrence of one of the two recurrences, located with the saving of
the other, in a year not before the first one of either rule; so the tail answers only after that
transition, in years in which both rules are in force. -/
def InForce (draft : Draft) (id : String) (tail : Tail) : Prop :=
  ∃ last ∈ (draft.toTimeZone id).transitions.back?, ∃ side year,
    last = tail.entry side (tail.occurrence side year) ∧
    (∀ rule ∈ draft.tailRules tail,
      (tail.recurrence side).point.NotBefore year rule.fromYear) ∧
    ∀ instant, (draft.toTimeZone id).tailAt? instant = some tail →
      last.millis < instant ∧ ∀ rule ∈ draft.tailRules tail,
        rule.fromYear ≤ Instant.yearOf (instant + tail.clockBefore side)

/-- Wherever the tail answers, each of its two rules has fired before and its state has been shown.
-/
def HaveFired (draft : Draft) (id : String) (tail : Tail) : Prop :=
  ∀ instant, (draft.toTimeZone id).tailAt? instant = some tail →
    ∀ rule ∈ draft.tailRules tail, ∃ firing ∈ draft.tailFirings tail,
      firing.OfRule draft.lastEra rule ∧ firing.after.Shows firing.transition ∧
        firing.transition.millis < instant

/-- The transition that the timeline ends with: that of the firing that joins the tail or, if there
is none, the newest one of the timeline without a tail. -/
def ending? (draft : Draft) (tail : Tail) : Option Transition :=
  ((draft.joining? tail).map Firing.transition).or (draft.simulate false).history.head?

/-- The timeline ends with the state of one of the two rules, not before the occurrence of that rule
in the first year of either and not before that year begins. Either the tail has been joined there
after a firing of the other rule, or the last transition stands at an occurrence all the same: by
chance, or since the point does not depend on the saving. -/
def EndsInTime (draft : Draft) (tail : Tail) : Prop :=
  ∃ ending ∈ draft.ending? tail, ∃ side,
    tail.Brings side ending ∧
    ((∃ joining ∈ draft.joining? tail, tail.Brings side.other joining.last) ∨
      ∃ year, ending.millis = tail.occurrence side year) ∧
    ∀ rule ∈ draft.tailRules tail,
      tail.occurrence side rule.fromYear ≤ ending.millis ∧
        Instant.startOfYear rule.fromYear ≤ ending.millis + tail.clockBefore side

namespace Attached

variable {draft : Draft} {tail : Tail} {rule : Side → YearlyRule} {attaching : Firing}
  {later : List Firing} (h : draft.Attached tail rule attaching later)

include h

theorem toTimeZone_tail (id : String) : (draft.toTimeZone id).tail = some tail := by
  rw [toTimeZone, h.replays]
  exact (Progress.replay_attached draft.lastEra true later _ rfl).1

theorem tailAt?_iff (id : String) {last : Transition}
    (hlast : last ∈ (draft.toTimeZone id).transitions.back?) (instant : Int) :
    (draft.toTimeZone id).tailAt? instant = some tail ↔ last.millis < instant := by
  rw [TimeZone.tailAt?, Option.mem_def.mp hlast, h.toTimeZone_tail id]
  simp

/-- With the tail attached, the first firing that is added ends the timeline; if there is none, all
firings are taken. -/
theorem history_cases :
    (∃ earlier joining after, later = earlier ++ joining :: after ∧
        (∀ firing ∈ earlier, firing.added = false) ∧ joining.added = true ∧
        (draft.simulate true).history = joining.after) ∨
      ((∀ firing ∈ later, firing.added = false) ∧
        (draft.simulate true).history = Firing.outcome attaching.after later) := by
  rw [h.replays]
  exact (Progress.replay_attached draft.lastEra true later _ rfl).2

theorem exists_joining {joining : Firing} (hjoining : joining ∈ draft.joining? tail) :
    ∃ before previous after,
      draft.tailFirings tail = before ++ previous :: joining :: after ∧
        joining.added = true ∧ (draft.simulate true).history = joining.after := by
  rw [joining?, h.tailFirings, List.drop_one, List.tail_cons, Option.mem_def] at hjoining
  rcases h.history_cases with
    ⟨earlier, found, after, hlater, hearlier, hfound, hhistory⟩ | ⟨hnone, -⟩
  · obtain rfl : found = joining := by
      rw [hlater, List.find?_append, List.find?_eq_none.mpr (by simpa using hearlier)] at hjoining
      simpa [hfound] using hjoining
    obtain ⟨before, previous, hprevious⟩ : ∃ before previous,
        attaching :: earlier = before ++ [previous] := by
      rcases List.eq_nil_or_concat (attaching :: earlier) with hnil | ⟨before, previous, hconcat⟩
      · contradiction
      · exact ⟨before, previous, by simpa using hconcat⟩
    refine ⟨before, previous, after, ?_, hfound, hhistory⟩
    rw [h.tailFirings, hlater, ← List.cons_append, hprevious, List.append_assoc]
    rfl
  · have hadded := List.find?_some hjoining
    rw [hnone joining (List.mem_of_find?_eq_some hjoining)] at hadded
    contradiction

theorem unadded_of_joining? (hnone : draft.joining? tail = none) :
    ∀ firing ∈ later, firing.added = false := by
  simpa [joining?, h.tailFirings] using hnone

theorem history_of_joining? (hnone : draft.joining? tail = none) :
    (draft.simulate true).history = Firing.outcome attaching.after later := by
  rcases h.history_cases with ⟨earlier, joining, after, hlater, -, hadded, -⟩ | ⟨-, hhistory⟩
  · rw [h.unadded_of_joining? hnone joining (by simp [hlater])] at hadded
    contradiction
  · exact hhistory

theorem exists_newest (id : String) : ∃ newest ∈ (draft.simulate true).history.head?,
    (draft.toTimeZone id).transitions.back? = some newest := by
  have hfilled : (draft.simulate true).history ≠ [] := by
    rcases h.history_cases with ⟨-, joining, -, -, -, -, hhistory⟩ | ⟨-, hhistory⟩
    · rw [hhistory]
      exact History.push_ne_nil joining.history joining.transition
    · rw [hhistory]
      exact Firing.outcome_ne_nil (History.push_ne_nil attaching.history attaching.transition) later
  obtain ⟨newest, older, hnewest⟩ := List.exists_cons_of_ne_nil hfilled
  have hhead : newest ∈ (draft.simulate true).history.head? := by simp [hnewest]
  exact ⟨newest, hhead, zoneOf_back? id hhead⟩

/-- The timeline of the tail ends as the joining firing says, and otherwise as it does without a
tail. -/
theorem back?_eq_ending? (hlaid : draft.LaidOut) (id : String) :
    (draft.toTimeZone id).transitions.back? = draft.ending? tail := by
  cases hjoining : draft.joining? tail with
  | some joining =>
    obtain ⟨-, -, -, -, hadded, hhistory⟩ := h.exists_joining hjoining
    rw [back?_of_added id hadded hhistory, ending?, hjoining]
    rfl
  | none =>
    have hplain := (hlaid.simulate_plain
      (show draft.tailFirings tail = [] ++ attaching :: later from h.tailFirings)).2
    obtain ⟨newest, hnewest, hback⟩ := h.exists_newest id
    rw [h.history_of_joining? hjoining, Option.mem_def] at hnewest
    rw [hback, ending?, hjoining, hplain, hnewest]
    rfl

theorem exists_occurrence_of_endsInTime {ending : Transition} {side : Side}
    (hending : ending ∈ draft.ending? tail) (hbrings : tail.Brings side ending)
    (hoccurs : (∃ joining ∈ draft.joining? tail, tail.Brings side.other joining.last) ∨
      ∃ year, ending.millis = tail.occurrence side year) :
    ∃ year, ending.millis = tail.occurrence side year := by
  rcases hoccurs with ⟨joining, hjoining, hother⟩ | hyear
  · obtain rfl : joining.transition = ending := by
      simpa [ending?, Option.mem_def.mp hjoining] using hending
    obtain ⟨before, previous, after, hsplit, -⟩ := h.exists_joining hjoining
    exact h.occurs_after_other (by simp [hsplit]) hbrings hother
  · exact hyear

theorem tailRules_eq : draft.tailRules tail = [rule .starting, rule .ending] := by
  simp [tailRules, h.tailFirings, h.remaining]

theorem rule_mem_tailRules (side : Side) : rule side ∈ draft.tailRules tail := by
  rw [h.tailRules_eq]
  cases side <;> simp

theorem mem_tailRules {member : YearlyRule} (hmember : member ∈ draft.tailRules tail)
    (side : Side) : member = rule side ∨ member = rule side.other := by
  rw [h.tailRules_eq] at hmember
  cases side with
  | starting => exact List.mem_pair.mp hmember
  | ending => exact (List.mem_pair.mp hmember).symm

theorem haveFired_of_joined (id : String) (hjoined : draft.Joined tail) :
    draft.HaveFired id tail := by
  obtain ⟨joining, hjoining, hshows⟩ := hjoined
  obtain ⟨before, previous, after, hsplit, hadded, hhistory⟩ := h.exists_joining hjoining
  obtain ⟨side, hprevious, hside, -, -⟩ := h.switches hsplit hadded hshows
  obtain ⟨hlast, hbefore⟩ := h.consecutive hsplit
  have hback := back?_of_added id hadded hhistory
  intro instant hanswers member hmember
  have hafter := (h.tailAt?_iff id hback instant).mp hanswers
  rcases h.mem_tailRules hmember side with rfl | rfl
  · exact ⟨joining, by simp [hsplit], hside, hshows.push hside.forward, hafter⟩
  · have hforward := hside.forward
    rw [hlast] at hforward
    rw [hlast, hbefore] at hshows
    exact ⟨previous, by simp [hsplit], hprevious, hshows, hforward.trans hafter⟩

/-- If nothing is added once the tail is attached, no entry is left at the end that was not there
after each firing. -/
theorem history_subset (hnone : draft.joining? tail = none) {firing : Firing}
    (hfiring : firing ∈ draft.tailFirings tail) :
    (draft.simulate true).history ⊆ firing.after := by
  obtain ⟨before, after, hsplit⟩ := List.append_of_mem hfiring
  have houtcome : Firing.outcome attaching.after later = Firing.outcome firing.after after := by
    rw [← Firing.outcome_append attaching.history before firing after, ← hsplit, h.tailFirings]
    rfl
  have hafter : ∀ other ∈ after, other.added = false := by
    intro other hother
    have hmem : other ∈ (before ++ firing :: after).tail := by
      cases before <;> simp [hother]
    rw [← hsplit, h.tailFirings] at hmem
    exact h.unadded_of_joining? hnone other hmem
  rw [h.history_of_joining? hnone, houtcome]
  rw [h.goes_on hsplit] at hafter ⊢
  exact Era.outcome_subset hafter

/-- If nothing were added, both rules would have fired at the last transition itself. -/
theorem joining?_ne_none (id : String) (hfired : draft.HaveFired id tail) :
    draft.joining? tail ≠ none := by
  intro hnone
  obtain ⟨newest, hnewest, hback⟩ := h.exists_newest id
  have hstands : ∀ side, ∃ firing ∈ draft.tailFirings tail,
      firing.OfRule draft.lastEra (rule side) ∧ firing.transition.millis = newest.millis := by
    intro side
    obtain ⟨firing, hfiring, hside, hshows, hbefore⟩ := hfired (newest.millis + 1)
      ((h.tailAt?_iff id hback _).mpr (by omega)) (rule side) (h.rule_mem_tailRules side)
    have hkept : newest ∈ firing.after :=
      h.history_subset hnone hfiring (List.mem_of_mem_head? hnewest)
    have hbound := hshows.bounded newest hkept
    exact ⟨firing, hfiring, hside, by omega⟩
  obtain ⟨first, hfirst, hstarting, hfirstMillis⟩ := hstands .starting
  obtain ⟨second, hsecond, hending, hsecondMillis⟩ := hstands .ending
  obtain rfl : first = second := by
    have hdistinct : ((draft.tailFirings tail).map fun firing => firing.transition.millis).Nodup :=
      List.pairwise_map.mpr (h.increasing.imp ne_of_lt)
    exact List.inj_on_of_nodup_map hdistinct hfirst hsecond
      (hfirstMillis.trans hsecondMillis.symm)
  exact Side.ne_other .starting (h.side_unique hstarting hending)

theorem joined_of_haveFired (id : String) (hfired : draft.HaveFired id tail) :
    draft.Joined tail := by
  obtain ⟨joining, hjoining⟩ := Option.ne_none_iff_exists'.mp (h.joining?_ne_none id hfired)
  obtain ⟨before, previous, after, hsplit, hadded, hhistory⟩ := h.exists_joining hjoining
  obtain ⟨side, hside⟩ := h.exists_side
    (show joining ∈ draft.tailFirings tail by simp [hsplit])
  have hback := back?_of_added id hadded hhistory
  obtain ⟨firing, hfiring, hother, hshown, hbefore⟩ :=
    hfired (joining.transition.millis + 1) ((h.tailAt?_iff id hback _).mpr (by omega))
      (rule side.other) (h.rule_mem_tailRules side.other)
  refine ⟨joining, hjoining, ?_⟩
  -- The firing that has shown the other rule comes first, and from it on every transition is shown.
  rw [hsplit, List.append_cons before] at hfiring
  rcases List.mem_append.mp hfiring with hearlier | hlater
  · obtain ⟨start, rest, hstart⟩ := List.append_of_mem hearlier
    have hgoes : draft.tailFirings tail = start ++ firing :: (rest ++ joining :: after) := by
      rw [hsplit, List.append_cons before, hstart, List.append_assoc, List.cons_append]
    have hmem : joining ∈ rest ++ joining :: after := by simp
    rw [h.goes_on hgoes] at hmem
    exact Era.firings_shows hshown hmem
  · rcases List.mem_cons.mp hlater with rfl | hafter
    · exact absurd (h.side_unique hside hother) side.ne_other
    · have hincreasing := h.increasing
      rw [hsplit, List.append_cons before, List.pairwise_append, List.pairwise_cons] at hincreasing
      have hlate := hincreasing.2.1.1 firing hafter
      omega

end Attached

/-- A tail is in force exactly if the timeline ends in time: with a transition of one of its rules,
joined after a firing of the other or else at an occurrence, and not before the first year of either
rule. Both rules have fired wherever it answers exactly if it has been joined: if, once it is
attached, another transition is added before the limit, and the transition before that one is shown.
-/
theorem inForce_iff_endsInTime (directives : List Directive) (id : String) {tail : Tail}
    (htail : ((ofDirectives directives).toTimeZone id).tail = some tail) :
    ((ofDirectives directives).InForce id tail ↔ (ofDirectives directives).EndsInTime tail) ∧
      ((ofDirectives directives).HaveFired id tail ↔ (ofDirectives directives).Joined tail) := by
  have hlaid := ofDirectives_laidOut directives
  obtain ⟨rule, attaching, later, hattached⟩ := hlaid.exists_attached htail
  have hback := hattached.back?_eq_ending? hlaid id
  refine ⟨⟨?_, ?_⟩, hattached.joined_of_haveFired id, hattached.haveFired_of_joined id⟩
  · rintro ⟨last, hlast, side, year, rfl, hyears, -⟩
    rw [hback] at hlast
    exact ⟨_, hlast, side, rfl, Or.inr ⟨year, rfl⟩,
      fun rule hrule => (tail.notBefore_iff side year rule.fromYear).mp (hyears rule hrule)⟩
  · rintro ⟨ending, hending, side, hbrings, hoccurs, hbounds⟩
    obtain ⟨year, hyear⟩ := hattached.exists_occurrence_of_endsInTime hending hbrings hoccurs
    rw [← hback] at hending
    refine ⟨ending, hending, side, year, by rw [← hyear]; exact hbrings, ?_, ?_⟩
    · intro rule hrule
      rw [tail.notBefore_iff, ← hyear]
      exact hbounds rule hrule
    · intro instant hanswers
      have hafter := (hattached.tailAt?_iff id hending instant).mp hanswers
      refine ⟨hafter, fun rule hrule => ?_⟩
      have hbegun := (hbounds rule hrule).2
      rw [Instant.le_yearOf_iff]
      omega

theorem inForce_seasons :
    ((ofDirectives (Directive.seasons 10 2096 3 2097)).toTimeZone "Z").tail =
        some (Tail.ofSeasons 0 10 3) ∧
      (ofDirectives (Directive.seasons 10 2096 3 2097)).InForce "Z" (Tail.ofSeasons 0 10 3) ∧
      (ofDirectives (Directive.seasons 10 2096 3 2097)).HaveFired "Z" (Tail.ofSeasons 0 10 3) :=
  have hexact := inForce_iff_endsInTime (Directive.seasons 10 2096 3 2097) "Z"
    (show _ = some (Tail.ofSeasons 0 10 3) by decide +kernel)
  ⟨by decide +kernel,
    hexact.1.mpr ⟨⟨4012941600000, "DST", 3600000, 0⟩, by decide +kernel, .ending,
      by decide +kernel, Or.inl (by decide +kernel), by decide +kernel⟩,
    hexact.2.mpr (by decide +kernel)⟩

/-- Saving time that begins in 2150 is never joined. The only transition is the initial state, which
is no occurrence of either rule, and the tail has saving time in effect in 2001. -/
theorem saving_before_first_year :
    ((ofDirectives (Directive.seasons 10 2098 3 2150)).toTimeZone "Z").tail =
        some (Tail.ofSeasons 0 10 3) ∧
      ((ofDirectives (Directive.seasons 10 2098 3 2150)).toTimeZone "Z").transitions =
        #[⟨Instant.earliest, "STD", 0, 0⟩] ∧
      (∀ side year, (Tail.ofSeasons 0 10 3).occurrence side year ≠ Instant.earliest) ∧
      Instant.yearOf 1000000000000 = 2001 ∧
      ((ofDirectives (Directive.seasons 10 2098 3 2150)).toTimeZone "Z").offsetAt 1000000000000 =
        3600000 :=
  ⟨by decide +kernel, by decide +kernel, Tail.ofSeasons_occurrence_ne_earliest, by decide +kernel,
    by decide +kernel⟩

end Draft

end CivilTime
