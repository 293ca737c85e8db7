import CivilTime.Proofs.TailJoin
import CivilTime.Proofs.TailPhases

/-!
A zone with a tail answers like the zone that is computed transition by transition up to the limit.
Both timelines are the same up to the firing that joins the tail. From there on the plain one goes
through phases of the two rules, and the tail has the same rule in effect as the phase.
-/

namespace CivilTime

open Tail (Side)

namespace Era

def OffsetsFit (era : Era) : Prop :=
  Bytes.FitsSigned 32 era.standardOffset ∧
    (∀ fixed ∈ era.fixed, Bytes.FitsSigned 32 fixed.save) ∧
    ∀ rule ∈ era.rules, Bytes.FitsSigned 32 rule.recurrence.save

instance (era : Era) : Decidable era.OffsetsFit :=
  inferInstanceAs (Decidable (_ ∧ _ ∧ _))

theorem OffsetsFit.firstTransition {era : Era} (h : era.OffsetsFit) {start : Int}
    {first : Transition} (hfirst : era.firstTransition start = some first) :
    Bytes.FitsSigned 32 first.save := by
  refine firstTransition_forall (P := fun state => Bytes.FitsSigned 32 state.save) ?_ ?_ ?_ hfirst
  · intro rule hrule
    simpa [stateOf, Transition.save] using h.2.2 rule hrule
  · intro _ rule hrule
    simpa [stateOf, Transition.save] using (by decide : Bytes.FitsSigned 32 0)
  · intro fixed hfixed
    simpa [Transition.save] using h.2.1 fixed hfixed

end Era

namespace Draft

theorem lastFirings_save {draft : Draft} (h : draft.lastEra.OffsetsFit) {firing : Firing}
    (hfiring : firing ∈ draft.lastFirings) : Bytes.FitsSigned 32 firing.last.save := by
  obtain ⟨first, hfirst, hmem⟩ := exists_opening hfiring
  have hopening : draft.lastEra.firstTransition draft.arrival.millis = some first := by
    rw [opening?] at hfirst
    split at hfirst
    · contradiction
    · exact hfirst
  have hstep : ∀ (rules : List YearlyRule) (firing : Firing),
      Bytes.FitsSigned 32 firing.last.save ∧ rules ⊆ draft.lastEra.rules →
      firing.Next draft.lastEra rules →
      Bytes.FitsSigned 32 firing.transition.save ∧
        firing.remaining ⊆ draft.lastEra.rules := by
    rintro rules firing ⟨-, hrules⟩ hnext
    obtain ⟨-, rule, hrule, hstate⟩ := Era.nextTransition_cases hnext
    have hkept := List.Subset.trans (Era.nextTransition_subset hnext) hrules
    refine ⟨?_, hkept⟩
    rw [hstate]
    simpa [Era.stateOf, Transition.save] using h.2.2 rule (hkept hrule)
  obtain ⟨offered, ⟨hsave, -⟩, -⟩ := Era.mem_firings
    (P := fun rules _ last => Bytes.FitsSigned 32 last.save ∧ rules ⊆ draft.lastEra.rules)
    hstep ⟨h.firstTransition hopening, List.Subset.refl _⟩ hmem
  exact hsave

theorem lastFirings_remaining {draft : Draft} {firing : Firing}
    (hfiring : firing ∈ draft.lastFirings) : firing.remaining ⊆ draft.lastEra.rules := by
  obtain ⟨first, -, hmem⟩ := exists_opening hfiring
  exact (Era.firings_forward hmem).2

namespace Attached

variable {draft : Draft} {tail : Tail} {rule : Side → YearlyRule} {attaching : Firing}
  {later : List Firing} (h : draft.Attached tail rule attaching later)

include h

/-- If both rules fire from the attaching firing on and no entry is taken back, the tail is joined:
the first firing of the other rule is added, unless one has been added before. -/
theorem joined_of_fires (hopens : draft.OpensLater)
    (hkeeps : ∀ firing ∈ draft.lastFirings, firing.history.Keeps firing.transition)
    (hfires : ∀ side, ∃ firing ∈ draft.tailFirings tail, tail.Brings side firing.transition) :
    draft.Joined tail := by
  obtain ⟨side, hattaching⟩ := h.exists_side
    (show attaching ∈ draft.tailFirings tail by simp [h.tailFirings])
  -- The first firing of the other rule has one of the attaching rule right before it.
  obtain ⟨joining, hjoining⟩ : ∃ joining, (draft.tailFirings tail).find?
      (fun firing => tail.Brings side.other firing.transition) = some joining := by
    obtain ⟨found, hfound, hbrings⟩ := hfires side.other
    exact Option.isSome_iff_exists.mp (List.find?_isSome.mpr ⟨found, hfound, by simpa using hbrings⟩)
  obtain ⟨hother, before, after, hsplit, hbefore⟩ := List.find?_eq_some_iff_append.mp hjoining
  have hjoiningOther := of_decide_eq_true hother
  obtain ⟨earlier, previous, rfl⟩ : ∃ earlier previous, before = earlier ++ [previous] := by
    rcases List.eq_nil_or_concat before with rfl | ⟨earlier, previous, hconcat⟩
    · rw [h.tailFirings] at hsplit
      obtain rfl : attaching = joining := (List.cons.inj hsplit).1
      exact absurd (h.carries.side_eq_of_entry_eq
        ((h.brings hattaching).symm.trans hjoiningOther)) side.ne_other
    · exact ⟨earlier, previous, by simpa using hconcat⟩
  rw [List.append_assoc, List.singleton_append] at hsplit
  have hjoiningMem : joining ∈ draft.tailFirings tail := by simp [hsplit]
  obtain ⟨previousSide, hprevious⟩ := h.exists_side
    (show previous ∈ draft.tailFirings tail by simp [hsplit])
  obtain ⟨hlast, -⟩ := h.consecutive hsplit
  obtain ⟨_, hfired⟩ := h.exists_side hjoiningMem
  have hchanges : ¬ joining.transition.sameState joining.last = true := by
    intro hsame
    rw [hlast, hjoiningOther, h.brings hprevious] at hsame
    obtain rfl := h.carries.sameState_entry hsame
    simpa [h.brings hprevious] using hbefore previous (by simp)
  have hadded : joining.added = true := by
    have hmem := draft.tailFirings_subset tail hjoiningMem
    have hpush := (hopens.shows hmem).push_of_keeps (hkeeps joining hmem) hfired.forward hchanges
    rw [Firing.added, hpush]
  have hlater : joining ∈ (draft.tailFirings tail).drop 1 := by
    rw [hsplit]
    cases earlier <;> simp
  obtain ⟨first, hfirst⟩ : ∃ first, draft.joining? tail = some first :=
    Option.isSome_iff_exists.mp (List.find?_isSome.mpr ⟨joining, hlater, hadded⟩)
  have hmem := List.mem_of_mem_drop (List.mem_of_find?_eq_some hfirst)
  exact ⟨first, hfirst, hopens.shows (draft.tailFirings_subset tail hmem)⟩

theorem rule_mem (side : Side) : rule side ∈ draft.lastEra.rules := by
  refine lastFirings_remaining (draft.tailFirings_subset tail
    (show attaching ∈ draft.tailFirings tail by simp [h.tailFirings])) ?_
  rw [h.remaining]
  cases side <;> simp

section Joined

variable (hfits : draft.lastEra.OffsetsFit) (hstays : tail.StaysInYear)
  {before after : List Firing} {previous joining : Firing}
  (hsplit : draft.tailFirings tail = before ++ previous :: joining :: after)
  (hadded : joining.added = true) (hshows : joining.history.Shows joining.last)

include hfits hstays hsplit hadded hshows

/-- Both rules have started, since both have fired. -/
theorem started (side : Side) :
    Instant.startOfYear (rule side).fromYear ≤ Era.limit + 2 ^ 32 := by
  have hfired : ∀ firing ∈ draft.tailFirings tail, firing.OfRule draft.lastEra (rule side) →
      Instant.startOfYear (rule side).fromYear ≤ Era.limit + 2 ^ 32 := by
    intro firing hfiring hside
    have hstart := hside.startOfYear_le (h.carries.recurrence side ▸ hstays side)
    have hearly := hside.early
    have hoffset := hfits.1
    have hsave := lastFirings_save hfits (draft.tailFirings_subset tail hfiring)
    simp only [Bytes.FitsSigned] at hoffset hsave
    omega
  obtain ⟨joiningSide, hprevious, hjoining, -, -⟩ := h.switches hsplit hadded hshows
  rcases side.eq_or_eq_other joiningSide with rfl | rfl
  · exact hfired joining (by simp [hsplit]) hjoining
  · exact hfired previous (by simp [hsplit]) hprevious

theorem settled (hopen : draft.lastEra.cutover = none) (halternates : tail.Alternates)
    (huntied : tail.Untied) : draft.lastEra.Settled tail rule where
  carries := h.carries
  isOpen := hopen
  stays := hstays
  alternates := halternates
  untied := huntied
  offset := hfits.1
  saves := by
    intro side
    rw [← h.carries.recurrence]
    exact hfits.2.2 (rule side) (h.rule_mem side)
  started := h.started hfits hstays hsplit hadded hshows

/-- The joining firing opens a phase of its rule. The other rule has fired before it, so all its
occurrences to come are in its years. -/
theorem exists_phase : ∃ side,
    draft.lastEra.Phase tail rule side joining.transition joining.transition := by
  obtain ⟨side, hprevious, hjoining, hsave, hoccurs⟩ := h.switches hsplit hadded hshows
  obtain ⟨hlast, -⟩ := h.consecutive hsplit
  have hbegun := hjoining.startOfYear_le (h.carries.recurrence side ▸ hstays side)
  have hstart := hprevious.startOfYear_le (h.carries.recurrence side.other ▸ hstays side.other)
  have hforward : previous.transition.millis < joining.transition.millis :=
    hlast ▸ hjoining.forward
  refine ⟨side, h.brings hjoining, h.brings hjoining, hoccurs, le_rfl, hjoining.early,
    fun _ hlater => hlater, hsave ▸ hbegun, ?_⟩
  intro year hlater
  obtain ⟨firedYear, hfiredYear⟩ := hprevious.exists_year
  have hclose : previous.last.save - tail.saveBefore side.other <
      358 * Instant.millisPerDay := by
    have hpreviousSave := lastFirings_save hfits
      (draft.tailFirings_subset tail (show previous ∈ draft.tailFirings tail by simp [hsplit]))
    have hother := hfits.2.2 (rule side) (h.rule_mem side)
    rw [h.carries.recurrence] at hother
    rw [Tail.saveBefore, Side.other_other]
    simp only [Bytes.FitsSigned] at hpreviousSave hother
    simp only [Instant.millisPerDay_eq]
    omega
  rw [hfiredYear] at hstart hforward
  have hwhere : tail.occurrence side.other year =
      (rule side.other).recurrence.point.instantIn year draft.lastEra.standardOffset
        (tail.saveBefore side.other) := by
    rw [Tail.occurrence, h.carries.recurrence, h.carries.standardOffset]
  rw [hwhere] at hlater ⊢
  exact YearPoint.start_le_of_later _ hclose hstart (hforward.trans hlater)

end Joined

/-- Once the two rules are settled, neither is dropped, so both are left after every firing. -/
theorem remaining_eq (hsettled : draft.lastEra.Settled tail rule) {firing : Firing}
    (hfiring : firing ∈ draft.tailFirings tail) :
    firing.remaining = [rule .starting, rule .ending] := by
  have hstep : ∀ (rules : List YearlyRule) (firing : Firing),
      (rules = [rule .starting, rule .ending] ∧ firing.last.millis < Era.limit ∧
        ∃ side, tail.Brings side firing.last) →
      firing.Next draft.lastEra rules →
      firing.remaining = [rule .starting, rule .ending] ∧
        firing.transition.millis < Era.limit ∧ ∃ side, tail.Brings side firing.transition := by
    rintro rules firing ⟨rfl, hearly, side, hside⟩ hnext
    have hbounds := hnext.bounds
    obtain ⟨fired, heq, -, -⟩ := hsettled.nextTransition_eq side hearly
    rw [Firing.Next, hside, Tail.entry_save, ← hside, heq, Prod.mk.injEq] at hnext
    obtain ⟨htransition, hremaining⟩ := hnext
    refine ⟨hremaining.symm, hbounds.2, fired, ?_⟩
    split at htransition
    · contradiction
    · rw [← Option.some.inj htransition]
      rfl
  obtain ⟨offered, hresumes⟩ := h.resumes
  obtain ⟨-, -, hnext, hlater⟩ := Era.firings_eq_cons hresumes
  obtain ⟨side, hattaching⟩ := h.exists_side
    (show attaching ∈ draft.tailFirings tail by simp [h.tailFirings])
  rw [h.tailFirings] at hfiring
  rcases List.mem_cons.mp hfiring with rfl | hmem
  · exact h.remaining
  · rw [hlater] at hmem
    obtain ⟨offered, hoffered, hnext⟩ := Era.mem_firings
      (P := fun rules _ last => rules = [rule .starting, rule .ending] ∧
        last.millis < Era.limit ∧ ∃ side, tail.Brings side last)
      hstep ⟨h.remaining, hattaching.early, side, h.brings hattaching⟩ hmem
    exact (hstep offered firing hoffered hnext).1

/-- The plain timeline only adds to the one with a tail, and from the last entry of that one on it
agrees with the tail. -/
theorem plain_agrees (hlaid : draft.LaidOut) (hfits : draft.lastEra.OffsetsFit)
    (hstays : tail.StaysInYear) (halternates : tail.Alternates) (huntied : tail.Untied)
    (hkeeps : ∀ firing ∈ draft.lastFirings, firing.history.Keeps firing.transition)
    (hjoined : draft.Joined tail) :
    ∃ newest added, newest ∈ (draft.simulate true).history.head? ∧
      (draft.simulate false).tail = none ∧
      (draft.simulate false).history = added ++ (draft.simulate true).history ∧
      (∀ entry ∈ added, newest.millis < entry.millis) ∧
      ∀ instant, newest.millis ≤ instant → instant < Era.limit →
        tail.Agrees (draft.simulate false).history instant := by
  obtain ⟨joining, hjoining, hshows⟩ := hjoined
  obtain ⟨before, previous, after, hsplit, hadded, hhistory⟩ := h.exists_joining hjoining
  have hsettled :=
    h.settled hfits hstays hsplit hadded hshows hlaid.lastEra_open halternates huntied
  obtain ⟨side, hphase⟩ := h.exists_phase hfits hstays hsplit hadded hshows
  obtain ⟨joiningSide, hfired⟩ := h.exists_side
    (show joining ∈ draft.tailFirings tail by simp [hsplit])
  have hremaining := h.remaining_eq hsettled (show joining ∈ draft.tailFirings tail by
    simp [hsplit])
  have hsplitJoining : draft.tailFirings tail = (before ++ [previous]) ++ joining :: after := by
    simpa using hsplit
  have hafter := h.goes_on hsplitJoining
  rw [hremaining] at hafter
  have hhead : joining.transition ∈ joining.after.head? := by
    obtain ⟨kept, hkept⟩ := Firing.after_of_added hadded
    rw [hkept]
    rfl
  have hkeepsAfter : ∀ firing ∈ draft.lastEra.firings [rule .starting, rule .ending]
      joining.after joining.transition, firing.history.Keeps firing.transition := by
    intro firing hfiring
    rw [← hafter] at hfiring
    exact hkeeps firing (draft.tailFirings_subset tail (by simp [hsplit, hfiring]))
  obtain ⟨added, houtcome, hlater, hagrees⟩ :=
    hsettled.outcome_agrees hphase hhead (hshows.push hfired.forward) hkeepsAfter
  obtain ⟨htail, hplain⟩ := hlaid.simulate_plain hsplitJoining
  rw [hafter, houtcome] at hplain
  rw [hhistory, hplain]
  exact ⟨joining.transition, added, hhead, htail, rfl, hlater, hagrees⟩

end Attached

/-- A tail that follows on from the last era. Its points stay in the year and alternate, both of its
states come up in the era, and the era opens after every earlier transition and takes none back. -/
structure Regular (draft : Draft) (tail : Tail) : Prop where
  stays : tail.StaysInYear
  alternates : tail.Alternates
  fires : ∀ side, ∃ firing ∈ draft.lastFirings, tail.Brings side firing.transition
  opens : draft.OpensLater
  keepsOpening : ∀ first ∈ draft.opening?, draft.arrival.history.Keeps first
  keeps : ∀ firing ∈ draft.lastFirings, firing.history.Keeps firing.transition

theorem seasons_regular :
    (ofDirectives (Directive.seasons 10 2096 3 2097)).Regular (Tail.ofSeasons 0 10 3) where
  stays := Tail.ofSeasons_stays 0 (by decide) (by decide)
  alternates := Tail.ofSeasons_alternates 0 (by decide) (by decide) (by decide)
  fires := by decide +kernel
  opens := by decide +kernel
  keepsOpening := by decide +kernel
  keeps := by decide +kernel

/-- Up to the limit, a zone with a regular tail answers like the zone that is computed without one,
if both rules fire from the attaching firing on, are never tied, and the offsets fit the zone file.
-/
theorem tail_agrees_with_plain (directives : List Directive) (id : String) {tail : Tail}
    (htail : ((ofDirectives directives).toTimeZone id).tail = some tail)
    (hregular : (ofDirectives directives).Regular tail)
    (hfires : ∀ side, ∃ firing ∈ (ofDirectives directives).tailFirings tail,
      tail.Brings side firing.transition)
    (huntied : tail.Untied) (hfits : (ofDirectives directives).lastEra.OffsetsFit)
    (instant : Int) (hearly : instant < Era.limit) :
    ((ofDirectives directives).toTimeZone id).offsetAt instant =
        ((ofDirectives directives).toPlainTimeZone id).offsetAt instant ∧
      ((ofDirectives directives).toTimeZone id).standardOffsetAt instant =
        ((ofDirectives directives).toPlainTimeZone id).standardOffsetAt instant ∧
      ((ofDirectives directives).toTimeZone id).nameAt instant =
        ((ofDirectives directives).toPlainTimeZone id).nameAt instant := by
  generalize hdraft : ofDirectives directives = draft at *
  have hlaid : draft.LaidOut := hdraft ▸ ofDirectives_laidOut directives
  obtain ⟨rule, attaching, later, hattached⟩ := hlaid.exists_attached htail
  obtain ⟨newest, added, hnewest, hplainTail, hplain, hlater, hagrees⟩ :=
    hattached.plain_agrees hlaid hfits hregular.stays hregular.alternates huntied hregular.keeps
      (hattached.joined_of_fires hregular.opens hregular.keeps hfires)
  have hback : (draft.toTimeZone id).transitions.back? = some newest := zoneOf_back? id hnewest
  have hfilled : (draft.simulate true).history ≠ [] := by
    intro hnil
    simp [hnil] at hnewest
  have hnoTail : (draft.toPlainTimeZone id).tailAt? instant = none :=
    TimeZone.tailAt?_of_tail_eq_none hplainTail instant
  have hplainAt : (draft.toPlainTimeZone id).transitionAt? instant =
      (draft.simulate false).history.at? instant :=
    zoneOf_transitionAt? id (draft.simulate_sound false) (by simp [hplain, hfilled]) instant
  rcases le_or_gt instant newest.millis with hbefore | hafter
  · have hsame : (draft.toTimeZone id).transitionAt? instant =
        (draft.toPlainTimeZone id).transitionAt? instant := by
      rw [hplainAt, hplain, History.at?_append fun entry hentry =>
        hbefore.trans_lt (hlater entry hentry)]
      exact zoneOf_transitionAt? id (draft.simulate_sound true) hfilled instant
    have hnone : (draft.toTimeZone id).tailAt? instant = none := by
      rw [TimeZone.tailAt?, hback]
      exact if_neg (not_lt.mpr hbefore)
    simp only [TimeZone.offsetAt, TimeZone.standardOffsetAt, TimeZone.nameAt, hnone, hnoTail,
      hsame, and_self]
  · obtain ⟨side, millis, hshown, hcurrent⟩ := hagrees instant hafter.le hearly
    have hsome := (hattached.tailAt?_iff id hback instant).mpr hafter
    simp [TimeZone.offsetAt, TimeZone.standardOffsetAt, TimeZone.nameAt, hsome, hnoTail, hplainAt,
      hshown, Tail.offsetAt, Tail.nameAt, hcurrent, Tail.entry]

theorem tail_agrees_in_seasons :
    ((ofDirectives (Directive.seasons 10 2096 3 2097)).toTimeZone "Z").tail =
        some (Tail.ofSeasons 0 10 3) ∧
      (ofDirectives (Directive.seasons 10 2096 3 2097)).Regular (Tail.ofSeasons 0 10 3) ∧
      ((ofDirectives (Directive.seasons 10 2096 3 2097)).toTimeZone "Z").offsetAt 4090000000000 =
        ((ofDirectives (Directive.seasons 10 2096 3 2097)).toPlainTimeZone "Z").offsetAt
          4090000000000 :=
  ⟨by decide +kernel, seasons_regular,
    (tail_agrees_with_plain (Directive.seasons 10 2096 3 2097) "Z" (by decide +kernel)
      seasons_regular (by decide +kernel)
      (Tail.ofSeasons_untied 0 (by decide) (by decide) (by decide)) (by decide +kernel)
      4090000000000 (by decide +kernel)).1⟩

/-- The zone with a regular tail departs from the plain one at an instant before the limit. -/
def DepartsAt (draft : Draft) (tail : Tail) (instant : Int) : Prop :=
  (draft.toTimeZone "Z").tail = some tail ∧ draft.Regular tail ∧ instant < Era.limit ∧
    (draft.toTimeZone "Z").offsetAt instant ≠ (draft.toPlainTimeZone "Z").offsetAt instant

/-- Both seasons begin on the same day, so saving time that comes up again hides standard time. -/
def tiedSeasons : List Directive :=
  [.standardOffset 0, .fixedSaving "X" 3600000] ++ Directive.seasons 10 2097 10 2098

/-- A third rule is in effect when the tail is attached, and the tail is never joined. -/
def overtakenSeasons : List Directive :=
  Directive.seasons 10 2098 3 2098 ++
    [.recurringSaving ⟨.firstOf 7, "XST", 7200000⟩ 2099 2099]

/-- The offset carries the local time beyond the last year before the limit is reached. -/
def distantSeasons : List Directive :=
  .standardOffset 249331392000000 :: Directive.seasons 10 9999 3 9999

theorem tiedSeasons_departs :
    (ofDirectives tiedSeasons).DepartsAt (Tail.ofSeasons 0 10 10) 4094501400000 := by
  refine ⟨by decide +kernel, ?_, by decide +kernel, by decide +kernel⟩
  exact ⟨Tail.ofSeasons_stays 0 (by decide) (by decide), Tail.ofSeasons_alternates_same 0 10,
    by decide +kernel, by decide +kernel, by decide +kernel, by decide +kernel⟩

theorem overtakenSeasons_departs :
    (ofDirectives overtakenSeasons).DepartsAt (Tail.ofSeasons 0 10 3) 4094497800000 := by
  refine ⟨by decide +kernel, ?_, by decide +kernel, by decide +kernel⟩
  exact ⟨Tail.ofSeasons_stays 0 (by decide) (by decide),
    Tail.ofSeasons_alternates 0 (by decide) (by decide) (by decide), by decide +kernel,
    by decide +kernel, by decide +kernel, by decide +kernel⟩

theorem distantSeasons_departs :
    (ofDirectives distantSeasons).DepartsAt (Tail.ofSeasons 249331392000000 10 3)
      4086547200000 := by
  refine ⟨by decide +kernel, ?_, by decide +kernel, by decide +kernel⟩
  exact ⟨Tail.ofSeasons_stays _ (by decide) (by decide),
    Tail.ofSeasons_alternates _ (by decide) (by decide) (by decide), by decide +kernel,
    by decide +kernel, by decide +kernel, by decide +kernel⟩

/-- Regular tails that depart from the plain zone, one for each of the other assumptions. -/
theorem regular_tails_may_depart :
    (ofDirectives tiedSeasons).DepartsAt (Tail.ofSeasons 0 10 10) 4094501400000 ∧
      (ofDirectives overtakenSeasons).DepartsAt (Tail.ofSeasons 0 10 3) 4094497800000 ∧
      (ofDirectives distantSeasons).DepartsAt (Tail.ofSeasons 249331392000000 10 3)
        4086547200000 :=
  ⟨tiedSeasons_departs, overtakenSeasons_departs, distantSeasons_departs⟩

end Draft

end CivilTime
