import CivilTime.Proofs.Course
import CivilTime.Proofs.Seasons

/-!
The queries of a zone as scans through its list of transitions. The zone finds its answers by
bisection, with a case of its own for each way in which an instant may lie among the transitions; a
scan looks at all of them. Where the transitions run strictly forwards the two agree, up to the last
transition also if a tail follows it.
-/

namespace CivilTime.TimeZone

def instants (zone : TimeZone) : List Int :=
  zone.transitions.toList.map Transition.millis

/-- The state of the last transition that is not after an instant, and universal time if there is
none. -/
def scanState (zone : TimeZone) (instant : Int) : State :=
  ((zone.transitions.toList.filter fun listed => listed.millis ≤ instant).getLast?.map
    Transition.state).getD ⟨0, 0, "UTC"⟩

/-- The least instant of a transition after the given one, or that one itself if there is none. -/
def scanNext (zone : TimeZone) (instant : Int) : Int :=
  (zone.instants.filter fun millis => instant < millis).min?.getD instant

/-- One millisecond before the greatest instant of a transition, the initial state apart, that is
not after the given one, or that one itself if there is none. -/
def scanPrevious (zone : TimeZone) (instant : Int) : Int :=
  ((zone.instants.filter fun millis =>
    Instant.earliest < millis ∧ millis ≤ instant).max?.map (· - 1)).getD instant

variable {zone : TimeZone}

theorem scanNext_of_soonest {instant : Int} {next : Transition}
    (hmem : next ∈ zone.transitions.toList) (hlater : instant < next.millis)
    (hsoonest : ∀ other ∈ zone.transitions.toList, instant < other.millis →
      next.millis ≤ other.millis) : zone.scanNext instant = next.millis := by
  have hmin : (zone.instants.filter fun millis => instant < millis).min? = some next.millis := by
    rw [List.min?_eq_some_iff]
    simpa [instants] using ⟨⟨⟨next, by simpa using hmem, rfl⟩, hlater⟩, by simpa using hsoonest⟩
  simp [scanNext, hmin]

theorem scanNext_of_passed {instant : Int}
    (hpassed : ∀ listed ∈ zone.transitions.toList, listed.millis ≤ instant) :
    zone.scanNext instant = instant := by
  have hnone : zone.instants.filter (fun millis => instant < millis) = [] := by
    simpa [instants, List.filter_eq_nil_iff] using hpassed
  simp [scanNext, hnone]

/-- The initial state is no transition that could have been passed. -/
theorem scanPrevious_of_initial {instant : Int}
    (hinitial : ∀ listed ∈ zone.transitions.toList, listed.millis ≤ instant →
      listed.millis ≤ Instant.earliest) : zone.scanPrevious instant = instant := by
  have hnone : zone.instants.filter (fun millis =>
      Instant.earliest < millis ∧ millis ≤ instant) = [] := by
    rw [List.filter_eq_nil_iff]
    intro millis hmillis hfound
    obtain ⟨listed, hlisted, rfl⟩ := List.mem_map.mp hmillis
    obtain ⟨hafter, hreached⟩ := decide_eq_true_eq.mp hfound
    exact absurd (hinitial listed hlisted hreached) (not_le.mpr hafter)
  rw [scanPrevious, hnone]
  rfl

theorem scanPrevious_of_latest {instant : Int} {latest : Transition}
    (hmem : latest ∈ zone.transitions.toList) (hreached : latest.millis ≤ instant)
    (hgreatest : ∀ other ∈ zone.transitions.toList, other.millis ≤ instant →
      other.millis ≤ latest.millis) :
    zone.scanPrevious instant =
      if Instant.earliest < latest.millis then latest.millis - 1 else instant := by
  split
  · next hmoved =>
    have hmax : (zone.instants.filter fun millis =>
        Instant.earliest < millis ∧ millis ≤ instant).max? = some latest.millis := by
      rw [List.max?_eq_some_iff]
      simp only [instants, List.mem_filter, List.mem_map, decide_eq_true_eq]
      refine ⟨⟨⟨latest, hmem, rfl⟩, hmoved, hreached⟩, ?_⟩
      rintro millis ⟨⟨other, hother, rfl⟩, -, hle⟩
      exact hgreatest other hother hle
    rw [scanPrevious, hmax]
    rfl
  · next hinitial =>
    apply scanPrevious_of_initial
    intro other hother hle
    exact (hgreatest other hother hle).trans (not_lt.mp hinitial)

namespace Increasing

variable (h : zone.Increasing)

include h

theorem stateAt_eq_scan (htail : zone.tail = none) (instant : Int) :
    zone.stateAt instant = zone.scanState instant := by
  have hnone := tailAt?_of_tail_eq_none htail instant
  have hlast : zone.transitionAt? instant =
      (zone.transitions.toList.filter fun listed => listed.millis ≤ instant).getLast? := by
    rw [h.transitionAt?_eq, List.getLast?_filter, History.at?]
  simp only [stateAt, offsetAt, standardOffsetAt, nameAt, hnone, scanState, ← hlast]
  cases zone.transitionAt? instant with
  | none => rfl
  | some transition => rfl

/-- A transition to come is found among those that bisection leaves. -/
theorem nextPlace_of_later {instant : Int}
    (hlater : ∃ listed ∈ zone.transitions.toList, instant < listed.millis) :
    zone.nextPlace instant = .known (zone.scanNext instant) := by
  obtain ⟨hthrough, hafter, -⟩ := h.countThrough_split instant
  cases hnext : zone.transitions[zone.countThrough instant]? with
  | some next =>
    obtain ⟨hmem, hfirst⟩ := h.first_of_drop hnext
    have hscan : zone.scanNext instant = next.millis := by
      refine scanNext_of_soonest (List.mem_of_mem_drop hmem) (hafter next hmem) ?_
      intro other hother hcoming
      refine hfirst other ((mem_take_or_drop hother _).resolve_left fun htake => ?_)
      exact absurd (hthrough other htake) (not_le.mpr hcoming)
    simp [nextPlace, hnext, hscan]
  | none =>
    obtain ⟨listed, hlisted, hcoming⟩ := hlater
    have hpassed := hthrough listed (mem_take_of_getElem?_none hnext hlisted)
    exact absurd hpassed (not_le.mpr hcoming)

theorem getElem?_countThrough_of_passed {instant : Int}
    (hpassed : ∀ listed ∈ zone.transitions.toList, listed.millis ≤ instant) :
    zone.transitions[zone.countThrough instant]? = none := by
  obtain ⟨-, hafter, -⟩ := h.countThrough_split instant
  cases hnext : zone.transitions[zone.countThrough instant]? with
  | some next =>
    obtain ⟨hmem, -⟩ := h.first_of_drop hnext
    exact absurd (hpassed next (List.mem_of_mem_drop hmem)) (not_le.mpr (hafter next hmem))
  | none => rfl

theorem nextTransition?_eq_scan (htail : zone.tail = none) (instant : Int) :
    zone.nextTransition? instant = some (zone.scanNext instant) := by
  by_cases hlater : ∃ listed ∈ zone.transitions.toList, instant < listed.millis
  · simp [nextTransition?, h.nextPlace_of_later hlater]
  · push Not at hlater
    have hnext := h.getElem?_countThrough_of_passed hlater
    simp [nextTransition?, nextPlace, hnext, htail, scanNext_of_passed hlater]

/-- From the last transition on, the search forwards is that of the tail. -/
theorem nextTransition?_at_last {tail : Tail} (htail : zone.tail = some tail) {last : Transition}
    (hlast : zone.transitions.back? = some last) (hlisted : last ∈ zone.transitions.toList)
    {instant : Int} (hequal : instant = last.millis) :
    zone.nextTransition? instant = tail.nextTransition? instant := by
  obtain ⟨found, hfound, -, hgreatest⟩ := h.exists_last (List.ne_nil_of_mem hlisted)
  obtain rfl := Option.some.inj (hlast.symm.trans hfound)
  have hpassed : ∀ listed ∈ zone.transitions.toList, listed.millis ≤ instant :=
    fun listed hmem => (hgreatest listed hmem).1.trans hequal.ge
  have hnext := h.getElem?_countThrough_of_passed hpassed
  have hplace : zone.nextPlace instant = .inTail tail instant := by
    simp [nextPlace, hnext, htail, hlast, max_eq_left hequal.ge]
  simp [nextTransition?, nextTransition, hplace, Tail.nextTransition?]

/-- Before the first transition, the search backwards stays where it is. -/
theorem previousPlace_of_none {instant : Int}
    (hnone : ∀ listed ∈ zone.transitions.toList, instant < listed.millis)
    (hroom : zone.tail = none ∨ ∃ other ∈ zone.transitions.toList, instant ≤ other.millis) :
    zone.previousPlace instant = .known instant := by
  obtain ⟨hbefore, -, hcount⟩ := h.countBefore_split instant
  have hzero : zone.countBefore instant = 0 := by
    by_contra hsome
    obtain ⟨n, hn⟩ := Nat.exists_eq_succ_of_ne_zero hsome
    rw [hn] at hbefore hcount
    have hearlier : zone.transitions[n]? = some zone.transitions[n] :=
      Array.getElem?_eq_getElem (by rw [Array.length_toList] at hcount; omega)
    obtain ⟨hmem, -⟩ := h.last_of_take hearlier
    have hpassed := hbefore _ hmem
    have hcoming := hnone _ (List.mem_of_mem_take hmem)
    omega
  cases hhere : zone.transitions[0]? with
  | some here =>
    have hcoming := hnone here (Array.mem_toList_iff.mpr (Array.mem_of_getElem? hhere))
    have hmillis : here.millis ≠ instant := by omega
    simp [previousPlace, hzero, hhere, hmillis]
  | none =>
    have hempty : zone.transitions = #[] := by simpa using hhere
    have htail : zone.tail = none := hroom.resolve_right (by simp [hempty])
    simp [previousPlace, hzero, hempty, htail, beforeLast]

theorem previousTransition?_eq_scan {instant : Int}
    (hroom : zone.tail = none ∨ ∃ other ∈ zone.transitions.toList, instant ≤ other.millis) :
    zone.previousTransition? instant = some (zone.scanPrevious instant) := by
  by_cases hstarted : ∃ listed ∈ zone.transitions.toList, listed.millis ≤ instant
  · obtain ⟨latest, hmem, hreached, hgreatest⟩ := h.exists_latest hstarted
    have hplace := h.previousPlace_of_latest hmem hreached hgreatest hroom
    simp [previousTransition?, hplace, scanPrevious_of_latest hmem hreached hgreatest]
  · push Not at hstarted
    have hscan : zone.scanPrevious instant = instant := by
      apply scanPrevious_of_initial
      intro listed hlisted hle
      exact absurd hle (not_le.mpr (hstarted listed hlisted))
    simp [previousTransition?, h.previousPlace_of_none hstarted hroom, hscan]

end Increasing

/-- The queries of a zone whose transitions run strictly forwards, compared with scans through them:
without a tail they agree everywhere. With a tail the searches agree up to the last transition,
except that the search forwards from the last one is that of the tail. -/
theorem queries_eq_scan (zone : TimeZone) (h : zone.Increasing) (instant : Int) :
    (zone.tail = none →
      zone.offsetAt? instant = some (zone.scanState instant).wallOffset ∧
      zone.standardOffsetAt instant = (zone.scanState instant).standardOffset ∧
      zone.nameAt? instant = some (zone.scanState instant).name ∧
      zone.nextTransition? instant = some (zone.scanNext instant) ∧
      zone.previousTransition? instant = some (zone.scanPrevious instant)) ∧
    ∀ tail ∈ zone.tail, ∀ last ∈ zone.transitions.back?, instant ≤ last.millis →
      zone.nextTransition? instant =
          (if instant = last.millis then tail.nextTransition? instant
            else some (zone.scanNext instant)) ∧
        zone.previousTransition? instant = some (zone.scanPrevious instant) := by
  constructor
  · intro htail
    have hnone := tailAt?_of_tail_eq_none htail instant
    have hstate := h.stateAt_eq_scan htail instant
    refine ⟨?_, ?_, ?_, h.nextTransition?_eq_scan htail instant,
      h.previousTransition?_eq_scan (Or.inl htail)⟩
    · simp [offsetAt?, hnone, ← hstate, stateAt]
    · simp [← hstate, stateAt]
    · simp [nameAt?, hnone, ← hstate, stateAt]
  · intro tail htail last hlast hle
    have hlisted : last ∈ zone.transitions.toList := by
      apply List.mem_of_getLast?
      rw [Array.getLast?_toList, hlast]
    refine ⟨?_, h.previousTransition?_eq_scan (Or.inr ⟨last, hlisted, hle⟩)⟩
    split
    · next hequal => exact h.nextTransition?_at_last htail hlast hlisted hequal
    · next hbefore =>
      have hplace := h.nextPlace_of_later ⟨last, hlisted, lt_of_le_of_ne hle hbefore⟩
      simp [nextTransition?, hplace]

def onceMoved (tail : Option Tail) : TimeZone :=
  { id := "Z"
    transitions := #[⟨Instant.earliest, "LMT", 1800000, 1800000⟩, ⟨0, "STD", 3600000, 3600000⟩]
    tail }

/-- At the only transition, without a tail and with one after it. -/
theorem queries_eq_scan_once_moved :
    let plain := onceMoved none
    let tailed := onceMoved (some (Tail.ofSeasons 3600000 10 3))
    (plain.Increasing ∧ plain.tail = none ∧
      plain.offsetAt? 0 = some (plain.scanState 0).wallOffset ∧
      plain.standardOffsetAt 0 = (plain.scanState 0).standardOffset ∧
      plain.nameAt? 0 = some (plain.scanState 0).name ∧
      plain.nextTransition? 0 = some (plain.scanNext 0) ∧
      plain.previousTransition? 0 = some (plain.scanPrevious 0)) ∧
    tailed.Increasing ∧
      tailed.nextTransition? 0 = (Tail.ofSeasons 3600000 10 3).nextTransition? 0 ∧
      tailed.previousTransition? 0 = some (tailed.scanPrevious 0) := by
  have hincreasing : ∀ tail, (onceMoved tail).Increasing := by
    intro tail
    simp [Increasing, onceMoved, Instant.earliest]
  have hplain := (queries_eq_scan (onceMoved none) (hincreasing none) 0).1 rfl
  have htailed := (queries_eq_scan (onceMoved (some (Tail.ofSeasons 3600000 10 3)))
    (hincreasing _) 0).2 _ rfl ⟨0, "STD", 3600000, 3600000⟩ rfl le_rfl
  rw [if_pos rfl] at htailed
  exact ⟨⟨hincreasing none, rfl, hplain⟩, hincreasing _, htailed⟩

end CivilTime.TimeZone
