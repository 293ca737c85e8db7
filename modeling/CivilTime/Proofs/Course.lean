import CivilTime.Proofs.Lookup
import CivilTime.Proofs.Tail

/-!
The course of a zone: all transitions that it goes through, those that are listed and those that its
tail brings after them. Where the tail takes over from the state of the last one that is listed, the
queries answer from the course as a whole: the state is that of the latest transition, and the
searches find the transitions next to an instant.
-/

namespace CivilTime

open Tail (Side)

structure Latest (course : Transition → Prop) (instant : Int) (transition : Transition) :
    Prop where
  mem : course transition
  reached : transition.millis ≤ instant
  latest : ∀ other, course other → other.millis ≤ instant → other.millis ≤ transition.millis

structure Upcoming (course : Transition → Prop) (instant : Int) (transition : Transition) :
    Prop where
  mem : course transition
  later : instant < transition.millis
  soonest : ∀ other, course other → instant < other.millis → transition.millis ≤ other.millis

/-- Once a transition has come up, it is the latest one. -/
theorem Upcoming.latest {course : Transition → Prop} {instant : Int} {transition : Transition}
    (h : Upcoming course instant transition) : Latest course transition.millis transition :=
  ⟨h.mem, le_rfl, fun _ _ hle => hle⟩

namespace TimeZone

/-- The zone goes through a transition: one that is listed, or an occurrence of the tail after all
that are listed. -/
def Undergoes (zone : TimeZone) (transition : Transition) : Prop :=
  transition ∈ zone.transitions.toList ∨
    ∃ tail ∈ zone.tail, (∃ side year, transition = tail.entry side (tail.occurrence side year)) ∧
      ∀ listed ∈ zone.transitions.toList, listed.millis < transition.millis

/-- The zone is orderly, and if it has a tail, that alternates between two states and takes over
from one of them. -/
structure Regular (zone : TimeZone) : Prop where
  orderly : zone.Orderly
  stays : ∀ tail ∈ zone.tail, tail.StaysInYear
  alternates : ∀ tail ∈ zone.tail, tail.Alternates
  switches : ∀ tail ∈ zone.tail, tail.Switches
  hasMonths : ∀ tail ∈ zone.tail, tail.hasMonths = true
  joined : ∀ tail ∈ zone.tail, ∃ last ∈ zone.transitions.back?, ∃ side year,
    last = tail.entry side (tail.occurrence side year)

/-- The last transition that is listed lies after all others. -/
theorem Increasing.exists_last {zone : TimeZone} (h : zone.Increasing)
    (hfilled : zone.transitions.toList ≠ []) :
    ∃ last, zone.transitions.back? = some last ∧ last ∈ zone.transitions.toList ∧
      ∀ listed ∈ zone.transitions.toList, listed.millis ≤ last.millis ∧
        (last.millis ≤ listed.millis → listed = last) := by
  obtain ⟨older, last, hlist⟩ := (List.eq_nil_or_concat' _).resolve_left hfilled
  have hincreasing := h
  rw [Increasing, hlist, List.pairwise_append] at hincreasing
  refine ⟨last, ?_, by simp [hlist], fun listed hlisted => ?_⟩
  · rw [← Array.getLast?_toList, hlist, List.getLast?_concat]
  · rw [hlist, List.mem_append, List.mem_singleton] at hlisted
    rcases hlisted with holder | rfl
    · have hlt := hincreasing.2.2 listed holder last (by simp)
      exact ⟨hlt.le, fun hle => absurd hlt (not_lt.mpr hle)⟩
    · exact ⟨le_rfl, fun _ => rfl⟩

theorem Orderly.exists_last {zone : TimeZone} (h : zone.Orderly) :
    ∃ last, zone.transitions.back? = some last ∧ last ∈ zone.transitions.toList ∧
      ∀ listed ∈ zone.transitions.toList, listed.millis ≤ last.millis ∧
        (last.millis ≤ listed.millis → listed = last) :=
  h.isIncreasing.exists_last h.nonempty

/-- Around a transition, the list consists of what lies before it and what lies after it. -/
theorem Increasing.split_at {zone : TimeZone} (h : zone.Increasing) {listed : Transition}
    (hlisted : listed ∈ zone.transitions.toList) :
    ∃ before after, zone.transitions.toList = before ++ listed :: after ∧
      (∀ other ∈ before, other.millis < listed.millis) ∧
      ∀ other ∈ after, listed.millis < other.millis := by
  obtain ⟨before, after, hsplit⟩ := List.append_of_mem hlisted
  have hincreasing := h
  rw [Increasing, hsplit, List.pairwise_append] at hincreasing
  obtain ⟨-, hafter, hbefore⟩ := hincreasing
  exact ⟨before, after, hsplit, fun other hother => hbefore other hother listed (by simp),
    (List.pairwise_cons.mp hafter).1⟩

theorem Increasing.transitionAt?_of_latest {zone : TimeZone} (h : zone.Increasing) {instant : Int}
    {listed : Transition} (hlisted : listed ∈ zone.transitions.toList)
    (hreached : listed.millis ≤ instant)
    (hlatest : ∀ other ∈ zone.transitions.toList, other.millis ≤ instant →
      other.millis ≤ listed.millis) : zone.transitionAt? instant = some listed := by
  obtain ⟨before, after, hsplit, -, hafter⟩ := h.split_at hlisted
  have hlater : ∀ other ∈ after.reverse, instant < other.millis := by
    intro other hother
    have hmem := List.mem_reverse.mp hother
    by_contra hle
    have := hlatest other (by simp [hsplit, hmem]) (not_lt.mp hle)
    have := hafter other hmem
    omega
  rw [h.transitionAt?_eq, hsplit, List.reverse_append, List.reverse_cons, List.append_assoc,
    History.at?_append hlater]
  exact History.at?_cons_of_le hreached

/-- From the first transition on, there is a latest one that is listed. -/
theorem Increasing.exists_latest {zone : TimeZone} (h : zone.Increasing) {instant : Int}
    (hstarted : ∃ listed ∈ zone.transitions.toList, listed.millis ≤ instant) :
    ∃ listed ∈ zone.transitions.toList, listed.millis ≤ instant ∧
      ∀ other ∈ zone.transitions.toList, other.millis ≤ instant →
        other.millis ≤ listed.millis := by
  obtain ⟨hthrough, hafter, -⟩ := h.countThrough_split instant
  have hsplit := List.take_append_drop (zone.countThrough instant) zone.transitions.toList
  have hcounted : ∀ other ∈ zone.transitions.toList, other.millis ≤ instant →
      other ∈ zone.transitions.toList.take (zone.countThrough instant) := by
    intro other hother hreached
    rw [← hsplit, List.mem_append] at hother
    exact hother.resolve_right fun hdrop => absurd (hafter other hdrop) (not_lt.mpr hreached)
  obtain ⟨started, hmem, hreached⟩ := hstarted
  obtain ⟨older, listed, htake⟩ := (List.eq_nil_or_concat' _).resolve_left
    (List.ne_nil_of_mem (hcounted started hmem hreached))
  have hlisted : listed ∈ zone.transitions.toList.take (zone.countThrough instant) := by
    simp [htake]
  refine ⟨listed, List.mem_of_mem_take hlisted, hthrough listed hlisted, fun other hother hle => ?_⟩
  have hincreasing := List.Pairwise.sublist (List.take_sublist (zone.countThrough instant) _) h
  have hcount := hcounted other hother hle
  rw [htake, List.pairwise_append] at hincreasing
  rw [htake, List.mem_append, List.mem_singleton] at hcount
  rcases hcount with holder | rfl
  · exact (hincreasing.2.2 other holder listed (by simp)).le
  · exact le_rfl

/-- The first of the transitions that are left after some of them lies before the others. -/
theorem Increasing.first_of_drop {zone : TimeZone} (h : zone.Increasing) {count : Nat}
    {first : Transition} (hfirst : zone.transitions[count]? = some first) :
    first ∈ zone.transitions.toList.drop count ∧
      ∀ other ∈ zone.transitions.toList.drop count, first.millis ≤ other.millis := by
  obtain ⟨hcount, rfl⟩ := Array.getElem?_eq_some_iff.mp hfirst
  have hdrop := List.drop_eq_getElem_cons (show count < zone.transitions.toList.length by simpa)
  have hincreasing := List.Pairwise.sublist (List.drop_sublist count _) h
  rw [hdrop] at hincreasing ⊢
  refine ⟨by simp, fun other hother => ?_⟩
  rcases List.mem_cons.mp hother with rfl | hmem
  · simp
  · simpa using ((List.pairwise_cons.mp hincreasing).1 other hmem).le

/-- The last of some transitions lies after the others. -/
theorem Increasing.last_of_take {zone : TimeZone} (h : zone.Increasing) {count : Nat}
    {last : Transition} (hlast : zone.transitions[count]? = some last) :
    last ∈ zone.transitions.toList.take (count + 1) ∧
      ∀ other ∈ zone.transitions.toList.take (count + 1), other.millis ≤ last.millis := by
  have htake : zone.transitions.toList.take (count + 1) =
      zone.transitions.toList.take count ++ [last] := by
    rw [List.take_add_one, Array.getElem?_toList, hlast, Option.toList_some]
  have hincreasing := List.Pairwise.sublist (List.take_sublist (count + 1) _) h
  rw [htake, List.pairwise_append] at hincreasing
  rw [htake]
  refine ⟨by simp, fun other hother => ?_⟩
  rcases List.mem_append.mp hother with hmem | hmem
  · exact (hincreasing.2.2 other hmem last (by simp)).le
  · rw [List.mem_singleton.mp hmem]

theorem mem_take_or_drop {zone : TimeZone} {listed : Transition}
    (h : listed ∈ zone.transitions.toList) (count : Nat) :
    listed ∈ zone.transitions.toList.take count ∨ listed ∈ zone.transitions.toList.drop count := by
  rwa [← List.mem_append, List.take_append_drop]

theorem mem_take_of_getElem?_none {zone : TimeZone} {listed : Transition} {count : Nat}
    (hnone : zone.transitions[count]? = none) (h : listed ∈ zone.transitions.toList) :
    listed ∈ zone.transitions.toList.take count := by
  rwa [List.take_of_length_le (by simpa using hnone)]

/-- Transitions that follow each other in the list differ in their state. -/
theorem Orderly.not_sameState {zone : TimeZone} (h : zone.Orderly) {earlier later : Transition}
    (hearlier : earlier ∈ zone.transitions.toList) (hlater : later ∈ zone.transitions.toList)
    (hlt : earlier.millis < later.millis)
    (hfollows : ∀ other ∈ zone.transitions.toList, earlier.millis < other.millis →
      later.millis ≤ other.millis) : earlier.sameState later = false := by
  obtain ⟨before, after, hsplit, hbefore, hafter⟩ := h.isIncreasing.split_at hearlier
  have hmem : later ∈ after := by
    rw [hsplit, List.mem_append, List.mem_cons] at hlater
    rcases hlater with hold | rfl | hmore
    · exact absurd (hbefore later hold) hlt.not_gt
    · exact absurd hlt (lt_irrefl _)
    · exact hmore
  obtain ⟨first, rest, rfl⟩ := List.exists_cons_of_ne_nil (List.ne_nil_of_mem hmem)
  have hincreasing := h.increasing
  have hchanging := h.changing
  rw [hsplit, List.pairwise_append, List.pairwise_cons, List.pairwise_cons] at hincreasing
  rw [hsplit, List.isChain_append, List.isChain_cons_cons] at hchanging
  obtain rfl : later = first := by
    refine (List.mem_cons.mp hmem).resolve_right fun hmore => ?_
    have hfirst := hfollows first (by simp [hsplit]) (hafter first (by simp))
    exact absurd (hincreasing.2.1.2.1 later hmore) (not_lt.mpr hfirst)
  have hchange := hchanging.2.1.1
  rw [Bool.eq_false_iff, ne_eq, Transition.sameState_iff]
  tauto

/-- The search backwards knows the latest transition that is listed, unless it has to look into the
tail. The initial state does not count. -/
theorem Increasing.previousPlace_of_latest {zone : TimeZone} (h : zone.Increasing) {instant : Int}
    {listed : Transition} (hlisted : listed ∈ zone.transitions.toList)
    (hreached : listed.millis ≤ instant)
    (hlatest : ∀ other ∈ zone.transitions.toList, other.millis ≤ instant →
      other.millis ≤ listed.millis)
    (hroom : zone.tail = none ∨ ∃ other ∈ zone.transitions.toList, instant ≤ other.millis) :
    zone.previousPlace instant =
      .known (if Instant.earliest < listed.millis then listed.millis - 1 else instant) := by
  obtain ⟨hbefore, hfrom, hcount⟩ := h.countBefore_split instant
  cases hhere : zone.transitions[zone.countBefore instant]? with
  | some here =>
    obtain ⟨hhereMem, hfirst⟩ := h.first_of_drop hhere
    by_cases hmillis : here.millis = instant
    · have hsame : listed.millis = instant := by
        have := hlatest here (List.mem_of_mem_drop hhereMem) hmillis.le
        omega
      simp [previousPlace, hhere, hmillis, hsame]
    · have htake : listed ∈ zone.transitions.toList.take (zone.countBefore instant) := by
        refine (mem_take_or_drop hlisted _).resolve_right fun hdrop => ?_
        have := hfirst listed hdrop
        have := hfrom here hhereMem
        omega
      obtain ⟨n, hn⟩ : ∃ n, zone.countBefore instant = n + 1 := by
        refine Nat.exists_eq_succ_of_ne_zero fun hzero => ?_
        simp [hzero] at htake
      rw [hn] at htake hcount hbefore hhere
      have hearlier : zone.transitions[n]? = some zone.transitions[n] :=
        Array.getElem?_eq_getElem (by rw [Array.length_toList] at hcount; omega)
      obtain ⟨hearlierMem, hlastTaken⟩ := h.last_of_take hearlier
      have hsame : zone.transitions[n].millis = listed.millis :=
        le_antisymm
          (hlatest _ (List.mem_of_mem_take hearlierMem) (hbefore _ hearlierMem).le)
          (hlastTaken listed htake)
      simp [previousPlace, hn, hhere, hmillis, hearlier, hsame]
  | none =>
    have hpassed : ∀ other ∈ zone.transitions.toList, other.millis < instant :=
      fun other hother => hbefore other (mem_take_of_getElem?_none hhere hother)
    have htail : zone.tail = none := hroom.resolve_right fun ⟨other, hother, hle⟩ =>
      absurd (hpassed other hother) (not_lt.mpr hle)
    obtain ⟨last, hlast, hlastMem, hgreatest⟩ := h.exists_last (List.ne_nil_of_mem hlisted)
    obtain rfl := (hgreatest listed hlisted).2 (hlatest last hlastMem (hpassed last hlastMem).le)
    simp [previousPlace, hhere, htail, beforeLast, hlast]

/-- After all transitions that are listed, the search backwards looks into the tail. -/
theorem Increasing.previousPlace_of_passed {zone : TimeZone} (h : zone.Increasing) {instant : Int}
    (hpassed : ∀ listed ∈ zone.transitions.toList, listed.millis < instant) {tail : Tail}
    (htail : zone.tail = some tail) : zone.previousPlace instant = .inTail tail := by
  obtain ⟨-, hfrom, -⟩ := h.countBefore_split instant
  cases hhere : zone.transitions[zone.countBefore instant]? with
  | some here =>
    have hdrop := (h.first_of_drop hhere).1
    exact absurd (hpassed here (List.mem_of_mem_drop hdrop)) (not_lt.mpr (hfrom here hdrop))
  | none => simp [previousPlace, hhere, htail]

/-- What comes no later than a transition that is listed is listed itself. -/
theorem Undergoes.listed {zone : TimeZone} {transition listed : Transition}
    (h : zone.Undergoes transition) (hlisted : listed ∈ zone.transitions.toList)
    (hle : transition.millis ≤ listed.millis) : transition ∈ zone.transitions.toList := by
  rcases h with hmem | ⟨tail, -, -, hafter⟩
  · exact hmem
  · exact absurd (hafter listed hlisted) (not_lt.mpr hle)

theorem Undergoes.listed_of_no_tail {zone : TimeZone} {transition : Transition}
    (h : zone.Undergoes transition) (htail : zone.tail = none) :
    transition ∈ zone.transitions.toList := by
  rcases h with hmem | ⟨tail, hmem, -⟩
  · exact hmem
  · simp [htail] at hmem

namespace Regular

variable {zone : TimeZone} (h : zone.Regular)

include h

/-- A transition that is not before the last one listed is an occurrence of the tail, if there is
a tail. -/
theorem exists_occurrence {tail : Tail} (htail : tail ∈ zone.tail) {transition last : Transition}
    (hlast : last ∈ zone.transitions.back?) (hundergone : zone.Undergoes transition)
    (hlater : last.millis ≤ transition.millis) :
    ∃ side year, transition = tail.entry side (tail.occurrence side year) := by
  obtain ⟨found, hfound, -, hgreatest⟩ := h.orderly.exists_last
  obtain rfl := Option.mem_unique hlast hfound
  rcases hundergone with hlisted | ⟨other, hother, hoccurrence, -⟩
  · obtain ⟨joined, hjoined, hoccurrence⟩ := h.joined tail htail
    obtain rfl := Option.mem_unique hlast hjoined
    rwa [(hgreatest transition hlisted).2 hlater]
  · rwa [Option.mem_unique htail hother]

/-- Every occurrence of the tail after the last transition listed belongs to the course. -/
theorem undergoes_occurrence {tail : Tail} (htail : tail ∈ zone.tail) {last : Transition}
    (hlast : last ∈ zone.transitions.back?) {side : Side} {year : Int}
    (hlater : last.millis < tail.occurrence side year) :
    zone.Undergoes (tail.entry side (tail.occurrence side year)) := by
  obtain ⟨found, hfound, -, hgreatest⟩ := h.orderly.exists_last
  obtain rfl := Option.mem_unique hlast hfound
  exact Or.inr ⟨tail, htail, ⟨side, year, rfl⟩,
    fun listed hlisted => (hgreatest listed hlisted).1.trans_lt hlater⟩

/-- From the first transition on, the course has a latest one. -/
theorem exists_latest {instant : Int}
    (hstarted : ∃ listed ∈ zone.transitions.toList, listed.millis ≤ instant) :
    ∃ transition, Latest zone.Undergoes instant transition := by
  obtain ⟨last, hlast, hlastMem, hgreatest⟩ := h.orderly.exists_last
  obtain ⟨listed, hlisted, hreached, hlatest⟩ := h.orderly.isIncreasing.exists_latest hstarted
  cases htail : zone.tail with
  | none =>
    exact ⟨listed, Or.inl hlisted, hreached, fun other hother hle =>
      hlatest other (hother.listed_of_no_tail htail) hle⟩
  | some tail =>
    obtain ⟨⟨side, year, hprevious⟩, hbefore, hgreatestOccurrence⟩ :=
      Tail.previousTransition_spec (h.stays tail htail) instant
    rcases lt_or_ge last.millis (tail.occurrence side year) with hlater | hearlier
    · refine ⟨_, h.undergoes_occurrence htail hlast hlater, ?_, fun other hother hle => ?_⟩
      · simp only [Tail.entry]
        omega
      · rcases hother with hmem | ⟨otherTail, hmem, ⟨otherSide, otherYear, rfl⟩, -⟩
        · exact (hgreatest other hmem).1.trans hlater.le
        · obtain rfl := Option.mem_unique htail hmem
          have := hgreatestOccurrence otherSide otherYear hle
          simp only [Tail.entry] at hle ⊢
          omega
    · refine ⟨listed, Or.inl hlisted, hreached, fun other hother hle => ?_⟩
      rcases hother with hmem | ⟨otherTail, hmem, ⟨otherSide, otherYear, rfl⟩, hafter⟩
      · exact hlatest other hmem hle
      · obtain rfl := Option.mem_unique htail hmem
        have := hgreatestOccurrence otherSide otherYear hle
        have := hafter last hlastMem
        simp only [Tail.entry] at *
        omega

/-- The zone shows the state of the latest transition. -/
theorem stateAt_eq {instant : Int} {transition : Transition}
    (hlatest : Latest zone.Undergoes instant transition) :
    zone.stateAt instant = transition.state := by
  obtain ⟨last, hlast, hlastMem, hgreatest⟩ := h.orderly.exists_last
  cases htail : zone.tailAt? instant with
  | none =>
    have hlisted : transition ∈ zone.transitions.toList := by
      rcases hlatest.mem with hmem | ⟨tail, hmem, -, hafter⟩
      · exact hmem
      · have hreached := (hafter last hlastMem).trans_le hlatest.reached
        rw [tailAt?, hlast] at htail
        simp [hreached, Option.mem_def.mp hmem] at htail
    refine stateAt_of_transitionAt? htail ?_
    exact h.orderly.isIncreasing.transitionAt?_of_latest hlisted hlatest.reached fun other hother =>
      hlatest.latest other (Or.inl hother)
  | some tail =>
    obtain ⟨hpassed, hmem⟩ : last.millis < instant ∧ tail ∈ zone.tail := by
      rw [tailAt?, hlast] at htail
      by_cases hpassed : last.millis < instant
      · simpa [hpassed] using htail
      · simp [hpassed] at htail
    have hlater := hlatest.latest last (Or.inl hlastMem) hpassed.le
    obtain ⟨side, year, rfl⟩ := h.exists_occurrence hmem hlast hlatest.mem hlater
    have hcurrent : tail.current instant = tail.recurrence side := by
      refine Tail.current_eq (h.stays tail hmem) (h.alternates tail hmem) hlatest.reached ?_
      intro between hbetween
      by_contra hle
      have hundergone := h.undergoes_occurrence hmem hlast (hlater.trans_lt hbetween)
      exact absurd (hlatest.latest _ hundergone (not_lt.mp hle)) (not_le.mpr hbetween)
    simp [stateAt, offsetAt, standardOffsetAt, nameAt, htail, Tail.offsetAt, Tail.nameAt, hcurrent,
      Transition.state, Tail.entry]

/-- The search for the next transition finds the one that comes up, or stays where it is if none
does. -/
theorem nextTransition?_cases (instant : Int) :
    (∃ transition, Upcoming zone.Undergoes instant transition ∧
        zone.nextTransition? instant = some transition.millis) ∨
      (∀ transition, zone.Undergoes transition → transition.millis ≤ instant) ∧
        zone.nextTransition? instant = some instant := by
  obtain ⟨last, hlast, hlastMem, hgreatest⟩ := h.orderly.exists_last
  obtain ⟨hthrough, hafter, -⟩ := h.orderly.isIncreasing.countThrough_split instant
  cases hnext : zone.transitions[zone.countThrough instant]? with
  | some next =>
    obtain ⟨hmem, hfirst⟩ := h.orderly.isIncreasing.first_of_drop hnext
    refine Or.inl ⟨next, ⟨Or.inl (List.mem_of_mem_drop hmem), hafter next hmem, ?_⟩, ?_⟩
    · rintro other (hlisted | ⟨tail, -, -, hlater⟩) hother
      · refine hfirst other ((mem_take_or_drop hlisted _).resolve_left fun htake => ?_)
        exact absurd (hthrough other htake) (not_le.mpr hother)
      · exact (hlater next (List.mem_of_mem_drop hmem)).le
    · simp [nextTransition?, nextPlace, hnext]
  | none =>
    have hpassed : ∀ listed ∈ zone.transitions.toList, listed.millis ≤ instant := by
      intro listed hlisted
      exact hthrough listed (mem_take_of_getElem?_none hnext hlisted)
    cases htail : zone.tail with
    | none =>
      refine Or.inr ⟨fun transition hundergone => ?_,
        by simp [nextTransition?, nextPlace, hnext, htail]⟩
      exact hpassed transition (hundergone.listed_of_no_tail htail)
    | some tail =>
      obtain ⟨⟨side, year, hoccurrence⟩, hlater, hsoonest⟩ :=
        Tail.nextTransition_spec (h.stays tail htail) instant
      have hplace : zone.nextPlace instant = .inTail tail instant := by
        simp [nextPlace, hnext, htail, hlast, hpassed last hlastMem]
      refine Or.inl ⟨tail.entry side (tail.occurrence side year), ⟨?_, ?_, ?_⟩, ?_⟩
      · refine h.undergoes_occurrence htail hlast ((hpassed last hlastMem).trans_lt ?_)
        rwa [← hoccurrence]
      · simpa [Tail.entry, ← hoccurrence] using hlater
      · rintro other (hlisted | ⟨otherTail, hmem, ⟨otherSide, otherYear, rfl⟩, -⟩) hother
        · exact absurd (hpassed other hlisted) (not_le.mpr hother)
        · obtain rfl := Option.mem_unique htail hmem
          rw [← hoccurrence]
          exact hsoonest otherSide otherYear hother
      · simp [nextTransition?, nextTransition, hplace, Tail.guarded, h.hasMonths tail htail,
          Tail.entry, hoccurrence]

/-- After the last transition that is listed, the tail finds the latest one. -/
theorem previousTransition?_of_passed {tail : Tail} (htail : zone.tail = some tail) {instant : Int}
    {transition : Transition} (hlatest : Latest zone.Undergoes instant transition)
    (hpassed : ∀ listed ∈ zone.transitions.toList, listed.millis < instant) :
    zone.previousTransition? instant = some (transition.millis - 1) := by
  obtain ⟨last, hlast, hlastMem, -⟩ := h.orderly.exists_last
  have hlater := hlatest.latest last (Or.inl hlastMem) (hpassed last hlastMem).le
  obtain ⟨side, year, rfl⟩ := h.exists_occurrence htail hlast hlatest.mem hlater
  obtain ⟨⟨foundSide, foundYear, hfound⟩, hfoundBefore, hgreatestOccurrence⟩ :=
    Tail.previousTransition_spec (h.stays tail htail) instant
  have hprevious : tail.previousTransition instant = tail.occurrence side year - 1 := by
    refine le_antisymm ?_ (hgreatestOccurrence side year hlatest.reached)
    rw [hfound]
    refine sub_le_sub_right ?_ 1
    rcases le_or_gt (tail.occurrence foundSide foundYear) last.millis with hle | hgt
    · exact hle.trans hlater
    · exact hlatest.latest _ (h.undergoes_occurrence htail hlast hgt)
        (show tail.occurrence foundSide foundYear ≤ instant by omega)
  have hplace := h.orderly.isIncreasing.previousPlace_of_passed hpassed htail
  have hanswer : zone.previousTransition instant = tail.occurrence side year - 1 := by
    rw [previousTransition, hplace]
    exact (if_pos hfoundBefore).trans hprevious
  simp [previousTransition?, hplace, Tail.guarded, h.hasMonths tail htail, hanswer, Tail.entry]

/-- The search for the previous transition finds the latest one, unless that is the initial
state. -/
theorem previousTransition?_eq {instant : Int} {transition : Transition}
    (hlatest : Latest zone.Undergoes instant transition)
    (hinitial : Instant.earliest < transition.millis) :
    zone.previousTransition? instant = some (transition.millis - 1) := by
  by_cases hroom : zone.tail = none ∨ ∃ listed ∈ zone.transitions.toList, instant ≤ listed.millis
  · have hlisted : transition ∈ zone.transitions.toList := by
      rcases hroom with htail | ⟨listed, hlisted, hle⟩
      · exact hlatest.mem.listed_of_no_tail htail
      · exact hlatest.mem.listed hlisted (hlatest.reached.trans hle)
    have hplace := h.orderly.isIncreasing.previousPlace_of_latest hlisted hlatest.reached
      (fun other hother => hlatest.latest other (Or.inl hother)) hroom
    simp [previousTransition?, hplace, hinitial]
  · push Not at hroom
    obtain ⟨tail, htail⟩ := Option.ne_none_iff_exists'.mp hroom.1
    exact h.previousTransition?_of_passed htail hlatest hroom.2

/-- Each transition changes the state of the one before it. -/
theorem not_sameState {instant : Int} {transition next : Transition}
    (hlatest : Latest zone.Undergoes instant transition)
    (hnext : Upcoming zone.Undergoes instant next) : transition.sameState next = false := by
  obtain ⟨last, hlast, hlastMem, hgreatest⟩ := h.orderly.exists_last
  have hreached := hlatest.reached
  have hlater := hnext.later
  rcases hnext.mem with hlisted | ⟨tail, htail, ⟨side, year, rfl⟩, hafterListed⟩
  · have hmem := hlatest.mem.listed hlisted (hreached.trans hlater.le)
    refine h.orderly.not_sameState hmem hlisted (hreached.trans_lt hlater) ?_
    intro other hother hafter
    refine hnext.soonest other (Or.inl hother) (not_le.mp fun hle => ?_)
    exact absurd (hlatest.latest other (Or.inl hother) hle) (not_le.mpr hafter)
  · have hpassed : last.millis ≤ instant := by
      by_contra hnotPassed
      have := hnext.soonest last (Or.inl hlastMem) (not_le.mp hnotPassed)
      have := hafterListed last hlastMem
      omega
    have hlastLe := hlatest.latest last (Or.inl hlastMem) hpassed
    obtain ⟨earlierSide, earlierYear, rfl⟩ := h.exists_occurrence htail hlast hlatest.mem hlastLe
    rw [Bool.eq_false_iff]
    intro hsame
    obtain rfl := (h.switches tail htail).side_eq hsame
    -- If both were of one side, the occurrence of the other side between them would be missing.
    obtain ⟨between, hafter, hbefore⟩ :=
      Tail.exists_between (h.alternates tail htail) (hreached.trans_lt hlater)
    have hundergone := h.undergoes_occurrence htail hlast (hlastLe.trans_lt hafter)
    rcases le_or_gt (tail.occurrence earlierSide.other between) instant with hle | hgt
    · exact absurd (hlatest.latest _ hundergone hle) (not_le.mpr hafter)
    · exact absurd (hnext.soonest _ hundergone hgt) (not_le.mpr hbefore)

end Regular

end TimeZone

end CivilTime
