import CivilTime.Proofs.Course
import CivilTime.Proofs.TailAgreement
import CivilTime.Verification

/-!
What a verification finds. The walk forwards through a course collects its transitions, and the walk
backwards meets the same ones. So on a zone whose queries follow its course, the only thing that can
be found wrong is a name.
-/

namespace CivilTime

namespace Verification

def viewOf (transition : Transition) : View :=
  ⟨transition.wallOffset, transition.standardOffset, some transition.name⟩

theorem viewOf_ne {first second : Transition} (h : first.sameState second = false) :
    viewOf second ≠ viewOf first := by
  intro heq
  rw [Bool.eq_false_iff, ne_eq, Transition.sameState_iff] at h
  simp only [viewOf, View.mk.injEq, Option.some.injEq] at heq
  exact h ⟨heq.1.symm, heq.2.1.symm, heq.2.2.symm⟩

structure Follows (zone : Queries) (course : Transition → Prop) : Prop where
  view : ∀ {instant transition}, Latest course instant transition →
    view? zone instant = some (viewOf transition)
  next : ∀ instant,
    (∃ transition, Upcoming course instant transition ∧
        zone.next instant = some transition.millis) ∨
      (∀ transition, course transition → transition.millis ≤ instant) ∧
        zone.next instant = some instant
  previous : ∀ {instant transition}, Latest course instant transition →
    Instant.earliest < transition.millis →
      zone.previous instant = some (transition.millis - 1)
  changes : ∀ {instant transition next}, Latest course instant transition →
    Upcoming course instant next → transition.sameState next = false

/-- Two transitions at one instant show the same. -/
theorem Follows.viewOf_eq {zone : Queries} {course : Transition → Prop} (h : Follows zone course)
    {first second : Transition} (hfirst : course first) (hsecond : course second)
    (hmillis : first.millis = second.millis) : viewOf first = viewOf second := by
  have hshown := h.view ⟨hfirst, le_rfl, fun _ _ hle => hle⟩
  rw [hmillis, h.view ⟨hsecond, le_rfl, fun _ _ hle => hle⟩] at hshown
  exact (Option.some.inj hshown).symm

/-- All transitions of a course after `first` up to an instant, newest first. -/
inductive Trail (course : Transition → Prop) (first : Int) : Int → List Int → Prop
  | nil {last : Int}
      (hnone : ∀ transition, course transition → transition.millis ≤ last →
        transition.millis ≤ first) : Trail course first last []
  | cons {last : Int} {transition : Transition} {rest : List Int}
      (hlatest : Latest course last transition) (hlater : first < transition.millis)
      (hrest : Trail course first (transition.millis - 1) rest) :
      Trail course first last (transition.millis :: rest)

namespace Trail

variable {course : Transition → Prop} {first last : Int} {found : List Int}

/-- Where no transition comes, a trail stays as it is. -/
theorem extend (h : Trail course first last found) {later : Int} (hle : last ≤ later)
    (hquiet : ∀ transition, course transition → last < transition.millis →
      later < transition.millis) : Trail course first later found := by
  have hreached : ∀ transition, course transition → transition.millis ≤ later →
      transition.millis ≤ last := by
    intro transition hmem hlater
    by_contra hgt
    exact absurd (hquiet transition hmem (not_le.mp hgt)) (not_lt.mpr hlater)
  cases h with
  | nil hnone =>
    exact .nil fun transition hmem hlater => hnone transition hmem (hreached transition hmem hlater)
  | cons hlatest hlater hrest =>
    refine .cons ⟨hlatest.mem, hlatest.reached.trans hle, fun other hmem hother => ?_⟩ hlater hrest
    exact hlatest.latest other hmem (hreached other hmem hother)

theorem step (h : Trail course first last found) (hfirst : first ≤ last) {next : Transition}
    (hnext : Upcoming course last next) :
    Trail course first next.millis (next.millis :: found) := by
  refine .cons hnext.latest (hfirst.trans_lt hnext.later)
    (h.extend ?_ fun transition hmem hgt => ?_)
  · have := hnext.later
    omega
  · have := hnext.soonest transition hmem hgt
    omega

/-- Where the walk ends, its trail reaches to the end of the range. The range may end before it
begins, but then nothing has been found. -/
theorem finish (h : Trail course first last found) {final : Int}
    (hfinal : last ≤ final ∨ found = [])
    (hquiet : ∀ transition, course transition → last < transition.millis →
      final < transition.millis) : Trail course first final found := by
  rcases le_or_gt last final with hle | hgt
  · exact h.extend hle hquiet
  · obtain rfl := hfinal.resolve_left (not_le.mpr hgt)
    cases h with
    | nil hnone => exact .nil fun transition hmem hle => hnone transition hmem (hle.trans hgt.le)

end Trail

variable {zone : Queries} {course : Transition → Prop}

theorem walkBackward_of_trail (h : Follows zone course) {first last : Int} {found : List Int}
    (hfirst : Instant.earliest ≤ first) (htrail : Trail course first last found) :
    walkBackward zone first last found = .done () := by
  induction htrail with
  | nil hnone => rfl
  | cons hlatest hlater hrest ih =>
    have hreached := hlatest.reached
    rw [walkBackward, h.previous hlatest (hfirst.trans_lt hlater)]
    dsimp only
    rw [if_neg (by omega), if_pos rfl, ih]

/-- A walk forwards through a course comes to its end and leaves the full trail, or it stops at a
transition whose name is not proper. The induction is on how far the end is away. -/
theorem walkForward_cases (h : Follows zone course) (last : Int) (patience : Nat)
    {first millis : Int} {transition : Transition} {found : List Int}
    (hlatest : Latest course millis transition) (hfirst : first ≤ millis)
    (htrail : Trail course first millis found)
    (hlast : millis ≤ last ∨ found = []) :
    (∃ all, walkForward zone last patience millis (viewOf transition) found = .done all ∧
        Trail course first last all ∧
        ∀ other, course other → millis < other.millis → other.millis ≤ last →
          isProper (some other.name) = true) ∨
      ∃ other, course other ∧ millis < other.millis ∧ other.millis ≤ last ∧
        isProper (some other.name) = false ∧
        walkForward zone last patience millis (viewOf transition) found =
          .defect (.improperName other.millis (some other.name)) := by
  induction hn : (last - millis).toNat using Nat.strong_induction_on
    generalizing millis transition found with
  | _ n ih =>
    rw [walkForward]
    rcases h.next millis with ⟨next, hnext, hquery⟩ | ⟨hnone, hquery⟩
    · have hlater := hnext.later
      rw [hquery]
      dsimp only
      rcases lt_or_ge last next.millis with hbeyond | hinside
      · have hquiet : ∀ other, course other → millis < other.millis → last < other.millis :=
          fun other hmem hother => hbeyond.trans_le (hnext.soonest other hmem hother)
        rw [if_pos (Or.inr hbeyond)]
        refine Or.inl ⟨found, rfl, htrail.finish hlast hquiet, fun other hmem hother hle => ?_⟩
        exact absurd (hquiet other hmem hother) (not_lt.mpr hle)
      · rw [if_neg (by omega), h.view hnext.latest]
        dsimp only
        rw [if_neg (viewOf_ne (h.changes hlatest hnext))]
        cases hproper : isProper (some next.name) with
        | false =>
          refine Or.inr ⟨next, hnext.mem, hlater, hinside, hproper, ?_⟩
          simp [viewOf, hproper]
        | true =>
          have hgo := ih (last - next.millis).toNat (by omega) hnext.latest (hfirst.trans hlater.le)
            (htrail.step hfirst hnext) (Or.inl hinside) rfl
          have hname : (!isProper (viewOf next).name) = false := by simp [viewOf, hproper]
          rw [hname, if_neg (by simp), if_pos hlater]
          rcases hgo with ⟨all, hdone, hall, hnames⟩ |
            ⟨other, hmem, hother, hle, himproper, hdefect⟩
          · refine Or.inl ⟨all, hdone, hall, fun other hmem hother hle => ?_⟩
            rcases (hnext.soonest other hmem hother).lt_or_eq with hlt | heq
            · exact hnames other hmem hlt hle
            · rw [← Option.some.inj (View.mk.inj (h.viewOf_eq hnext.mem hmem heq)).2.2, hproper]
          · exact Or.inr ⟨other, hmem, hlater.trans hother, hle, himproper, hdefect⟩
    · rw [hquery]
      dsimp only
      have hquiet : ∀ other, course other → millis < other.millis → last < other.millis :=
        fun other hmem hother => absurd (hnone other hmem) (not_le.mpr hother)
      rw [if_pos (Or.inl rfl)]
      refine Or.inl ⟨found, rfl, htrail.finish hlast hquiet, fun other hmem hother hle => ?_⟩
      exact absurd (hnone other hmem) (not_le.mpr hother)

/-- A walk through a course ends well, or stops at a transition whose name is not proper. -/
theorem walk_cases (h : Follows zone course) {first : Int}
    (hearliest : Instant.earliest ≤ first) {transition : Transition}
    (hlatest : Latest course first transition) (last : Int) :
    (walk zone first last = .done () ∧
        ∀ other, course other → first < other.millis → other.millis ≤ last →
          isProper (some other.name) = true) ∨
      ∃ other, course other ∧ first < other.millis ∧ other.millis ≤ last ∧
        isProper (some other.name) = false ∧
        walk zone first last = .defect (.improperName other.millis (some other.name)) := by
  have hstart : Trail course first first [] := .nil fun _ _ hle => hle
  rw [walk, h.view hlatest]
  rcases walkForward_cases h last patience hlatest le_rfl hstart (Or.inr rfl) with
    ⟨all, hdone, htrail, hnames⟩ | ⟨other, hmem, hlater, hle, himproper, hdefect⟩
  · refine Or.inl ⟨?_, hnames⟩
    simp only [hdone, walkBackward_of_trail h hearliest htrail]
  · refine Or.inr ⟨other, hmem, hlater, hle, himproper, ?_⟩
    simp only [hdefect]

end Verification

namespace Verifier

variable (verifier : Verifier) {zone : Queries}

theorem verify_done
    (h : Verification.walk zone (Instant.startOfYear verifier.startYear)
      (Instant.startOfYear verifier.endYear) = .done ()) :
    verifier.verify zone none =
      { verifier := { verifier with passed := verifier.passed + 1 }, verdict := .ok true } := by
  rw [verify, if_neg (by simp), h]

theorem verify_defect {defect : Verification.Defect}
    (h : Verification.walk zone (Instant.startOfYear verifier.startYear)
      (Instant.startOfYear verifier.endYear) = .defect defect) :
    verifier.verify zone none =
      { verifier := { verifier with failed := verifier.failed + 1 }
        verdict := .ok false
        messages := [.error (defect.message zone.id)] } := by
  rw [verify, if_neg (by simp), h]

end Verifier

namespace TimeZone

/-- The tail of a regular zone has its months, so every query is answered. -/
theorem Regular.view?_eq {zone : TimeZone} (h : zone.Regular) (instant : Int) :
    Verification.view? zone.queries instant =
      some ⟨zone.offsetAt instant, zone.standardOffsetAt instant, some (zone.nameAt instant)⟩ := by
  rw [Verification.view?, queries]
  dsimp only
  cases htail : zone.tailAt? instant with
  | none => simp [offsetAt?, nameAt?, htail]
  | some tail =>
    have hmonths := h.hasMonths tail (tail_eq_of_tailAt? htail)
    simp [offsetAt?, nameAt?, htail, Tail.guarded, hmonths]

theorem Regular.follows {zone : TimeZone} (h : zone.Regular) :
    Verification.Follows zone.queries zone.Undergoes where
  view := by
    intro instant transition hlatest
    obtain ⟨hoffset, hstandard, hname⟩ := State.mk.inj (h.stateAt_eq hlatest)
    rw [h.view?_eq, hoffset, hstandard, hname]
    rfl
  next := h.nextTransition?_cases
  previous := h.previousTransition?_eq
  changes := h.not_sameState

/-- The tail stays in its years and alternates, and the last transition that is listed is an
occurrence of it with the state that the tail has there. -/
structure Joins (zone : TimeZone) (tail : Tail) : Prop where
  stays : tail.StaysInYear
  alternates : tail.Alternates
  joined : ∃ last ∈ zone.transitions.back?,
    (∃ side year, last.millis = tail.occurrence side year) ∧
      last.wallOffset = tail.offsetAt last.millis ∧
      last.standardOffset = tail.standardOffset ∧
      last.name = tail.nameAt last.millis

end TimeZone

namespace Draft

/-- The tail of a zone that has been built has its months and switches between two states. -/
theorem Attached.hasMonths {draft : Draft} {tail : Tail} {rule : Tail.Side → YearlyRule}
    {attaching : Firing} {later : List Firing} (h : draft.Attached tail rule attaching later)
    (hlacks : draft.lacksMonth = false) : tail.hasMonths = true := by
  have hera : draft.lastEra.lacksMonth = false := by
    have hrule := h.rule_mem .starting
    rcases List.eq_nil_or_concat' draft.eras with hnil | ⟨earlier, last, heras⟩
    · simp [lastEra, hnil] at hrule
    · rw [lacksMonth, heras, List.any_append, Bool.or_eq_false_iff] at hlacks
      simpa [lastEra, heras] using hlacks.2
  have hpoint : ∀ side, (tail.recurrence side).point.hasMonth = true := by
    intro side
    rw [← h.carries.recurrence side]
    exact Era.hasMonth_of_mem hera (h.rule_mem side)
  exact Bool.and_eq_true_iff.mpr ⟨hpoint .starting, hpoint .ending⟩

/-- Whatever has been built is regular, as far as its tail joins. -/
theorem build?_regular (directives : List Directive) {id : String} {zone : TimeZone}
    {messages : List Message} (hbuild : (ofDirectives directives).build? id = some (zone, messages))
    (hjoins : ∀ tail ∈ zone.tail, zone.Joins tail) : zone.Regular := by
  obtain ⟨hlacks, rfl⟩ := build?_eq_some hbuild
  have hattached : ∀ tail ∈ ((ofDirectives directives).toTimeZone id).tail,
      ∃ rule attaching later, (ofDirectives directives).Attached tail rule attaching later :=
    fun tail htail => (ofDirectives_laidOut directives).exists_attached htail
  refine ⟨zoneOf_orderly id (simulate_sound _ true), fun tail htail => (hjoins tail htail).stays,
    fun tail htail => (hjoins tail htail).alternates, fun tail htail => ?_, fun tail htail => ?_,
    fun tail htail => ?_⟩
  · obtain ⟨rule, attaching, later, h⟩ := hattached tail htail
    exact h.carries.switches
  · obtain ⟨rule, attaching, later, h⟩ := hattached tail htail
    exact h.hasMonths hlacks
  · obtain ⟨hstays, halternates, last, hlast, ⟨side, year, hmillis⟩, hoffset, hstandard, hname⟩ :=
      hjoins tail htail
    have hcurrent : tail.current last.millis = tail.recurrence side :=
      Tail.current_eq hstays halternates hmillis.ge fun between hbetween => hmillis ▸ hbetween
    refine ⟨last, hlast, side, year, ?_⟩
    rw [Tail.offsetAt, hcurrent] at hoffset
    rw [Tail.nameAt, hcurrent] at hname
    cases last
    simp_all [Tail.entry]

/-- Verifying a zone that has been built comes to a verdict, from its first transition on and as far
as its tail joins: it passes if and only if every name in the range is proper. What is reported
otherwise is such a name, and never a transition without a change or one that is missed on the way
back. -/
theorem verify_passes_iff (directives : List Directive) {id : String} {zone : TimeZone}
    {messages : List Message} (hbuild : (ofDirectives directives).build? id = some (zone, messages))
    (hjoins : ∀ tail ∈ zone.tail, zone.Joins tail) (verifier : Verifier)
    (hstart : ∀ first ∈ zone.transitions[0]?,
      first.millis ≤ Instant.startOfYear verifier.startYear) :
    ∃ passes, (verifier.verify zone.queries none).verdict = .ok passes ∧
      (passes = true ↔ ∀ transition, zone.Undergoes transition →
        Instant.startOfYear verifier.startYear < transition.millis →
        transition.millis ≤ Instant.startOfYear verifier.endYear →
          3 ≤ transition.name.length ∨ transition.name = "??") ∧
      ∀ message ∈ (verifier.verify zone.queries none).messages, ∃ transition,
        zone.Undergoes transition ∧ message = .error (Verification.Defect.message zone.id
          (.improperName transition.millis (some transition.name))) := by
  have hregular := build?_regular directives hbuild hjoins
  obtain ⟨first, rest, htransitions⟩ := List.exists_cons_of_ne_nil hregular.orderly.nonempty
  have hmem : first ∈ zone.transitions.toList := by simp [htransitions]
  have hstarted := hstart first (by rw [← Array.getElem?_toList, htransitions]; rfl)
  obtain ⟨latest, hlatest⟩ := hregular.exists_latest ⟨first, hmem, hstarted⟩
  have hproper : ∀ transition : Transition, Verification.isProper (some transition.name) = true ↔
      3 ≤ transition.name.length ∨ transition.name = "??" := by
    simp [Verification.isProper, Progress.undefinedName]
  rcases Verification.walk_cases hregular.follows
      ((hregular.orderly.bounded first hmem).trans hstarted) hlatest
      (Instant.startOfYear verifier.endYear) with
    ⟨hdone, hnames⟩ | ⟨other, hundergone, hlater, hle, himproper, hdefect⟩
  · rw [verifier.verify_done hdone]
    refine ⟨true, rfl, ⟨fun _ transition hundergone hlater hle => ?_, fun _ => rfl⟩, by simp⟩
    exact (hproper transition).mp (hnames transition hundergone hlater hle)
  · rw [verifier.verify_defect hdefect]
    refine ⟨false, rfl, ⟨by simp, fun hnames => ?_⟩, fun message hmessage => ?_⟩
    · have := (hproper other).mpr (hnames other hundergone hlater hle)
      simp [himproper] at this
    · exact ⟨other, hundergone, List.mem_singleton.mp hmessage⟩

def seasonsZone : TimeZone where
  id := "Z"
  transitions := #[⟨Instant.earliest, "STD", 0, 0⟩, ⟨4012941600000, "DST", 3600000, 0⟩]
  tail := some (Tail.ofSeasons 0 10 3)

theorem seasonsZone_joins (tail : Tail) (h : tail ∈ seasonsZone.tail) : seasonsZone.Joins tail := by
  obtain rfl := Option.some.inj h
  refine ⟨Tail.ofSeasons_stays 0 (by decide) (by decide),
    Tail.ofSeasons_alternates 0 (by decide) (by decide) (by decide),
    ⟨4012941600000, "DST", 3600000, 0⟩, rfl, ⟨.ending, 2097, ?_⟩, ?_, rfl, ?_⟩
  · decide +kernel
  · decide +kernel
  · decide +kernel

/-- The seasons pass over years on both sides of the beginning of the tail. -/
theorem verify_passes_seasons :
    (ofDirectives (Directive.seasons 10 2096 3 2097)).build? "Z" = some (seasonsZone, []) ∧
      (∀ tail ∈ seasonsZone.tail, seasonsZone.Joins tail) ∧
      (({ startYear := 2090, endYear := 2200 } : Verifier).verify seasonsZone.queries
        none).verdict = .ok true := by
  have hbuild : (ofDirectives (Directive.seasons 10 2096 3 2097)).build? "Z" =
      some (seasonsZone, []) := by decide +kernel
  obtain ⟨passes, hverdict, hpasses, -⟩ := verify_passes_iff (Directive.seasons 10 2096 3 2097)
    hbuild seasonsZone_joins { startYear := 2090, endYear := 2200 } (by decide +kernel)
  have hnames : ∀ transition, seasonsZone.Undergoes transition → 3 ≤ transition.name.length := by
    rintro transition (hlisted | ⟨tail, htail, ⟨side, year, rfl⟩, -⟩)
    · fin_cases hlisted <;> decide
    · obtain rfl := Option.some.inj htail
      cases side with
      | starting => exact (by decide : 3 ≤ "STD".length)
      | ending => exact (by decide : 3 ≤ "DST".length)
  refine ⟨hbuild, seasonsZone_joins, ?_⟩
  rw [hverdict, hpasses.mpr fun transition hundergone _ _ => Or.inl (hnames transition hundergone)]

end Draft

end CivilTime
