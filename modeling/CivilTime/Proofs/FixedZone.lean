import CivilTime.Proofs.LastEra
import CivilTime.Proofs.Lookup
import CivilTime.Proofs.Stretches

/-!
Zones without rules. Each stretch holds from the end of the one before it to its own end, both
located with the offsets of the stretch that ends there. What the zone answers is read off the list
of these spans.
-/

namespace CivilTime

open Source (Stretch Zone)

/-- A part of a timeline under one state, with its end if it has one. -/
structure Span where
  standardOffset : Int
  save : Int
  name : String
  ending : Option Int
  deriving DecidableEq, Repr

namespace Span

def wallOffset (span : Span) : Int := span.standardOffset + span.save

def state (span : Span) : State := ⟨span.wallOffset, span.standardOffset, span.name⟩

def covers (span : Span) (instant : Int) : Bool := span.ending.all (instant < ·)

/-- The state at an instant: that of the first span that goes on after it. After the end of all
spans the offsets of the last one go on under the undefined name. -/
def stateAt? (spans : List Span) (instant : Int) : Option State :=
  match spans.find? fun span => span.covers instant with
  | some span => some span.state
  | none => spans.getLast?.map fun span => { span.state with name := Progress.undefinedName }

def ofStretch? (stretch : Stretch) : Option Span := do
  let save ← stretch.fixedSave?
  let name :=
    if stretch.format = "%z" then Abbreviation.ofOffset (stretch.standardOffset + save)
    else stretch.format
  match stretch.untilYear with
  | none => return ⟨stretch.standardOffset, save, name, none⟩
  | some year =>
    let ending ← stretch.untilPoint.instantIn? year stretch.standardOffset save
    return ⟨stretch.standardOffset, save, name, some ending⟩

/-- The spans of stretches that are not under rules, up to the first without an end. -/
def ofStretches? : List Stretch → Option (List Span)
  | [] => some []
  | stretch :: rest => do
    let span ← ofStretch? stretch
    match span.ending with
    | none => return [span]
    | some _ => return span :: (← ofStretches? rest)

def endings (spans : List Span) : List Int := spans.filterMap Span.ending

/-- The local times of these ends, each read with the offset of the span that ends. -/
def localEndings (spans : List Span) : List Int :=
  spans.filterMap fun span => span.ending.map (· + span.wallOffset)

/-- Each end lies after the one before it, in time and in local time, the first after the given
ones. -/
def Advance (start localStart : Int) : List Span → Prop
  | [] => True
  | span :: rest => ∀ ending ∈ span.ending, start < ending ∧
      localStart < ending + span.wallOffset ∧ Advance ending (ending + span.wallOffset) rest

theorem advance_of_pairwise {spans : List Span} {start localStart : Int}
    (hstart : ∀ ending ∈ endings spans, start < ending)
    (hlocalStart : ∀ ending ∈ localEndings spans, localStart < ending)
    (hendings : (endings spans).Pairwise (· < ·))
    (hlocalEndings : (localEndings spans).Pairwise (· < ·)) : Advance start localStart spans := by
  induction spans generalizing start localStart with
  | nil => trivial
  | cons span rest ih =>
    intro ending hending
    have hends : endings (span :: rest) = ending :: endings rest := by
      simp [endings, Option.mem_def.mp hending]
    have hlocals : localEndings (span :: rest) =
        (ending + span.wallOffset) :: localEndings rest := by
      simp [localEndings, Option.mem_def.mp hending]
    rw [hends] at hstart hendings
    rw [hlocals] at hlocalStart hlocalEndings
    obtain ⟨hafter, hrest⟩ := List.pairwise_cons.mp hendings
    obtain ⟨hlocalAfter, hlocalRest⟩ := List.pairwise_cons.mp hlocalEndings
    exact ⟨hstart ending (by simp), hlocalStart _ (by simp),
      ih hafter hlocalAfter hrest hlocalRest⟩

theorem stateAt?_of_covers {span : Span} {instant : Int} (h : span.covers instant = true)
    (rest : List Span) : stateAt? (span :: rest) instant = some span.state := by
  simp [stateAt?, h]

theorem stateAt?_of_not_covers {span : Span} {instant : Int} (h : span.covers instant = false)
    {rest : List Span} (hrest : rest ≠ []) :
    stateAt? (span :: rest) instant = stateAt? rest instant := by
  obtain ⟨next, others, rfl⟩ := List.exists_cons_of_ne_nil hrest
  simp [stateAt?, h, List.getLast?_cons]

theorem stateAt?_of_ended {span : Span} {instant : Int} (h : span.covers instant = false) :
    stateAt? [span] instant =
      some { span.state with name := Progress.undefinedName } := by
  simp [stateAt?, h]

def opening (span : Span) (start : Int) : Transition :=
  ⟨start, span.name, span.wallOffset, span.standardOffset⟩

end Span

namespace Progress

theorem follow_nil (era : Era) (tailAllowed : Bool) (progress : Progress) :
    follow era tailAllowed [] progress = progress := by
  rw [follow]
  split
  · rfl
  · next transition remaining hnext => simp [Era.nextTransition, Era.upcoming, Era.soonest] at hnext

/-- An era under a fixed saving pushes its state where it begins, and nothing else. -/
theorem walk_fixed {era : Era} {fixed : FixedSaving} (hfixed : era.fixed = some fixed)
    (hrules : era.rules = []) (tails : Bool) (rest : List Era) (progress : Progress) :
    walk tails (era :: rest) progress =
      let first : Transition :=
        ⟨progress.millis, fixed.name, era.standardOffset + fixed.save, era.standardOffset⟩
      let opened : Progress :=
        { progress with history := (progress.history.push first).1, save := fixed.save }
      match era.upperLimit fixed.save with
      | none => opened
      | some upper => walk tails rest { opened with millis := upper } := by
  have hsave : Transition.save
      ⟨progress.millis, fixed.name, era.standardOffset + fixed.save, era.standardOffset⟩ =
        fixed.save := by
    simp [Transition.save]
  rw [walk, if_neg (by simp [Era.isEmpty, hfixed]), Era.firstTransition, hfixed]
  cases hlimit : era.upperLimit fixed.save <;>
    simp only [enter, hrules, follow_nil, hsave, hlimit]

/-- The history is empty where the timeline begins, or its newest entry lies before an instant and
a local time, at which a span begins. -/
def Ready (history : History) (start localStart : Int) : Prop :=
  (history = [] ∧ localStart = start) ∨
    ∃ last bound, history.Stands last bound ∧ last.millis < start ∧
      bound < localStart ∧ localStart = start + last.wallOffset

theorem Ready.push {history : History} {start localStart : Int} (h : Ready history start localStart)
    {transition : Transition} (hstart : transition.millis = start) :
    (history.push transition).1.Stands transition localStart ∧
      ∀ instant < start, (history.push transition).1.at? instant = history.at? instant := by
  rcases h with ⟨rfl, rfl⟩ | ⟨last, bound, hstands, hlater, hbound, rfl⟩
  · rw [← hstart]
    refine ⟨History.stands_singleton transition, fun instant hinstant => ?_⟩
    simp [History.push, History.at?, hinstant]
  · rw [← hstart] at hlater hbound ⊢
    exact ⟨hstands.push hlater hbound, fun instant => hstands.at?_push hlater hbound⟩

/-- After the end of all spans the offsets of the last one go on under the undefined name. -/
theorem skip_at? {progress : Progress} {last : Transition} {bound : Int}
    (h : progress.history.Stands last bound) (hlater : last.millis < progress.millis)
    (hbound : bound < progress.millis + last.wallOffset) :
    progress.skip.tail = progress.tail ∧
      (∀ instant < progress.millis,
        progress.skip.history.at? instant = progress.history.at? instant) ∧
      ∀ instant, progress.millis ≤ instant → ∃ entry,
        progress.skip.history.at? instant = some entry ∧
          entry.state = { last.state with name := undefinedName } := by
  obtain ⟨newest, hnewest, hshown⟩ := h.shows.shown
  obtain ⟨older, hhistory⟩ : ∃ older, progress.history = newest :: older := by
    simpa [List.head?_eq_some_iff] using hnewest
  have hbefore := h.shows.bounded newest (by simp [hhistory])
  let transition : Transition := { newest with millis := progress.millis, name := undefinedName }
  have hskip :
      progress.skip = { progress with history := (progress.history.push transition).1 } := by
    simp only [skip, hhistory]
    rw [if_pos (by omega)]
  have hstands : (progress.history.push transition).1.Stands transition _ :=
    h.push hlater hbound
  rw [hskip]
  refine ⟨rfl, fun instant hinstant => h.at?_push hlater hbound hinstant,
    fun instant hinstant => ?_⟩
  obtain ⟨entry, hentry, hstate⟩ := hstands.shows.at? hinstant
  refine ⟨entry, hentry, ?_⟩
  rw [← (transition.sameState_iff_state entry).mp hstate]
  have hsame := (last.sameState_iff newest).mp hshown
  simp [transition, Transition.state, hsame]

end Progress

namespace Span

/-- What spans say about the instants from `start` on is what a history shows, and what it showed
before `start` has stayed. -/
structure Agree (spans : List Span) (start : Int) (before after : History) : Prop where
  earlier : ∀ instant < start, after.at? instant = before.at? instant
  later : ∀ instant, start ≤ instant → ∃ entry, after.at? instant = some entry ∧
    stateAt? spans instant = some entry.state

theorem ofStretch?_cases {stretch : Stretch} {span : Span} (h : ofStretch? stretch = some span) :
    stretch.fixedSave? = some span.save ∧ span.standardOffset = stretch.standardOffset ∧
      span.name = Abbreviation.fixed stretch.format stretch.standardOffset span.save ∧
      (span.ending = stretch.untilYear.map fun year =>
        stretch.untilPoint.instantIn year stretch.standardOffset span.save) ∧
      (stretch.untilYear.isSome = true → stretch.untilPoint.hasMonth = true) := by
  rw [ofStretch?] at h
  obtain ⟨save, hsave, h⟩ := Option.bind_eq_some_iff.mp h
  rw [hsave]
  cases huntil : stretch.untilYear with
  | none =>
    rw [huntil] at h
    obtain rfl := Option.some.inj h
    simp [Abbreviation.fixed]
  | some year =>
    rw [huntil] at h
    obtain ⟨ending, hending, h⟩ := Option.bind_eq_some_iff.mp h
    obtain rfl := Option.some.inj h
    rw [YearPoint.instantIn?, YearPoint.guarded] at hending
    split at hending
    · next hmonth =>
      obtain rfl := Option.some.inj hending
      simp [Abbreviation.fixed, hmonth]
    · contradiction

theorem ofStretches?_cons {stretch : Stretch} {rest : List Stretch} {spans : List Span}
    (h : ofStretches? (stretch :: rest) = some spans) :
    ∃ span, ofStretch? stretch = some span ∧
      ((span.ending = none ∧ spans = [span]) ∨
        ∃ ending others, span.ending = some ending ∧ ofStretches? rest = some others ∧
          spans = span :: others) := by
  rw [ofStretches?] at h
  obtain ⟨span, hspan, h⟩ := Option.bind_eq_some_iff.mp h
  refine ⟨span, hspan, ?_⟩
  cases hending : span.ending with
  | none =>
    rw [hending] at h
    exact Or.inl ⟨rfl, (Option.some.inj h).symm⟩
  | some ending =>
    rw [hending] at h
    obtain ⟨others, hothers, h⟩ := Option.bind_eq_some_iff.mp h
    exact Or.inr ⟨ending, others, rfl, hothers, (Option.some.inj h).symm⟩

theorem ending_eq_none_iff {stretch : Stretch} {span : Span} (h : ofStretch? stretch = some span) :
    span.ending = none ↔ stretch.untilYear = none := by
  rw [(ofStretch?_cases h).2.2.2.1, Option.map_eq_none_iff]

/-- Walking through the era of a span opens the span and goes on at its end. -/
theorem walk_span {name : String} {rules : String → Option Source.RuleSet} {stretch : Stretch}
    {span : Span} (h : ofStretch? stretch = some span) (tails : Bool) (rest : List Era)
    (progress : Progress) :
    Progress.walk tails (Zone.era name rules stretch :: rest) progress =
      let opened : Progress :=
        { progress with
          history := (progress.history.push (span.opening progress.millis)).1
          save := span.save }
      match span.ending with
      | none => opened
      | some ending => Progress.walk tails rest { opened with millis := ending } := by
  obtain ⟨hsave, hoffset, hname, hending, -⟩ := ofStretch?_cases h
  have hupper : (Zone.era name rules stretch).upperLimit span.save = span.ending := by
    rw [Zone.era_of_fixedSave? hsave, hending]
    simp [Era.upperLimit, Stretch.cutover?, Function.comp_def]
  rw [Progress.walk_fixed (by rw [Zone.era_of_fixedSave? hsave])
    (by rw [Zone.era_of_fixedSave? hsave]), hupper, Zone.era_of_fixedSave? hsave]
  simp only [opening, wallOffset, hoffset, hname]

/-- A history in which the opening of a span stands shows the state of the span where that covers
an instant. -/
theorem exists_shown {span : Span} {start localStart instant : Int} {opened : History}
    (hopened : opened.Stands (span.opening start) localStart) (hinstant : start ≤ instant)
    (hcovers : span.covers instant = true) (rest : List Span) :
    ∃ entry, opened.at? instant = some entry ∧
      stateAt? (span :: rest) instant = some entry.state := by
  obtain ⟨entry, hentry, hstate⟩ := hopened.shows.at? hinstant
  refine ⟨entry, hentry, ?_⟩
  rw [stateAt?_of_covers hcovers, ← (Transition.sameState_iff_state _ entry).mp hstate]
  rfl

/-- A span that is followed by others agrees with a history up to its end, if the state with which
it opens is kept until then. -/
theorem Agree.cons {span : Span} {rest : List Span} {start localStart ending : Int}
    {before opened after : History} (hending : span.ending = some ending) (hlt : start < ending)
    (hbefore : ∀ instant < start, opened.at? instant = before.at? instant)
    (hopened : opened.Stands (span.opening start) localStart)
    (hkept : ∀ instant < ending, after.at? instant = opened.at? instant)
    (hlater : ∀ instant, ending ≤ instant → ∃ entry, after.at? instant = some entry ∧
      stateAt? (span :: rest) instant = some entry.state) :
    Agree (span :: rest) start before after := by
  constructor
  · intro instant hinstant
    rw [hkept instant (hinstant.trans hlt), hbefore instant hinstant]
  · intro instant hinstant
    rcases lt_or_ge instant ending with hinside | houtside
    · rw [hkept instant hinside]
      exact exists_shown hopened hinstant (by simp [covers, hending, hinside]) rest
    · exact hlater instant houtside

/-- Walking through the eras of stretches shows what their spans say, from where the walk is to the
end of time. The induction carries that the history is ready for the span that begins there. -/
theorem walk_agrees (name : String) (rules : String → Option Source.RuleSet) (tails : Bool)
    {stretches : List Stretch} {spans : List Span} (hspans : ofStretches? stretches = some spans)
    (hfilled : spans ≠ []) (progress : Progress) {localStart : Int}
    (hadvance : Advance progress.millis localStart spans)
    (hready : Progress.Ready progress.history progress.millis localStart) :
    (Progress.walk tails (Zone.eras name rules stretches) progress).tail = progress.tail ∧
      Agree spans progress.millis progress.history
        (Progress.walk tails (Zone.eras name rules stretches) progress).history := by
  induction stretches generalizing spans progress localStart with
  | nil =>
    obtain rfl := Option.some.inj hspans
    exact absurd rfl hfilled
  | cons stretch rest ih =>
    obtain ⟨span, hspan, ⟨hopen, rfl⟩ | ⟨ending, others, hending, hothers, rfl⟩⟩ :=
      ofStretches?_cons hspans
    · have heras : Zone.eras name rules (stretch :: rest) = [Zone.era name rules stretch] := by
        rw [Zone.eras, (ending_eq_none_iff hspan).mp hopen]
      obtain ⟨hstands, hbefore⟩ :=
        hready.push (show (span.opening progress.millis).millis = progress.millis from rfl)
      rw [heras, walk_span hspan, hopen]
      exact ⟨rfl, hbefore, fun instant hinstant =>
        exists_shown hstands hinstant (by simp [covers, hopen]) []⟩
    · obtain ⟨hlt, hlocal, hnext⟩ := hadvance ending hending
      obtain ⟨year, huntil⟩ : ∃ year, stretch.untilYear = some year := by
        rw [← Option.ne_none_iff_exists', ne_eq, ← ending_eq_none_iff hspan, hending]
        simp
      obtain ⟨hstands, hbefore⟩ :=
        hready.push (show (span.opening progress.millis).millis = progress.millis from rfl)
      have heras : Zone.eras name rules (stretch :: rest) =
          Zone.era name rules stretch :: Zone.eras name rules rest := by
        rw [Zone.eras, huntil]
      have houtside : ∀ instant, ending ≤ instant → span.covers instant = false := by
        intro instant hinstant
        simpa [covers, hending] using hinstant
      let ended : Progress :=
        { progress with
          history := (progress.history.push (span.opening progress.millis)).1
          save := span.save
          millis := ending }
      have hended : ended.history.Stands (span.opening progress.millis) localStart := hstands
      rw [heras, walk_span hspan, hending]
      cases rest with
      | nil =>
        obtain rfl := Option.some.inj hothers
        have hskip := Progress.skip_at? hended hlt hlocal
        refine ⟨hskip.1,
          Agree.cons hending hlt hbefore hstands hskip.2.1 fun instant hinstant => ?_⟩
        obtain ⟨entry, hentry, hstate⟩ := hskip.2.2 instant hinstant
        refine ⟨entry, hentry, ?_⟩
        rw [stateAt?_of_ended (houtside instant hinstant), hstate]
        rfl
      | cons next later =>
        have hmore : others ≠ [] := by
          obtain ⟨_, _, ⟨_, rfl⟩ | ⟨_, _, _, _, rfl⟩⟩ := ofStretches?_cons hothers <;> simp
        have hready : Progress.Ready ended.history ended.millis (ending + span.wallOffset) :=
          Or.inr ⟨_, localStart, hended, hlt, hlocal, rfl⟩
        obtain ⟨htail, hagree⟩ := ih hothers hmore ended hnext hready
        refine ⟨htail, Agree.cons hending hlt hbefore hstands hagree.earlier
          fun instant hinstant => ?_⟩
        rw [stateAt?_of_not_covers (houtside instant hinstant) hmore]
        exact hagree.later instant hinstant

theorem exists_ofStretch? {stretches : List Stretch} {spans : List Span}
    (h : ofStretches? stretches = some spans) :
    ∀ stretch ∈ Zone.reached stretches, ∃ span, ofStretch? stretch = some span := by
  induction stretches generalizing spans with
  | nil => simp [Zone.reached]
  | cons stretch rest ih =>
    obtain ⟨span, hspan, hrest⟩ := ofStretches?_cons h
    rw [Zone.reached]
    cases huntil : stretch.untilYear with
    | none => simpa using ⟨span, hspan⟩
    | some year =>
      obtain ⟨ending, others, -, hothers, -⟩ : ∃ ending others, span.ending = some ending ∧
          ofStretches? rest = some others ∧ spans = span :: others := by
        rcases hrest with ⟨hopen, -⟩ | hends
        · simp [(ending_eq_none_iff hspan).mp hopen] at huntil
        · exact hends
      intro other hother
      rcases List.mem_cons.mp hother with rfl | hmem
      · exact ⟨span, hspan⟩
      · exact ih hothers other hmem

/-- Stretches with spans need no rules, and each point at which one ends has a month. -/
theorem resolveStretches_spans (name : String) (rules : String → Option Source.RuleSet)
    {stretches : List Stretch} {spans : List Span} (h : ofStretches? stretches = some spans) :
    (Zone.resolveStretches name rules stretches).missing = none ∧
      ∀ directive ∈ (Zone.resolveStretches name rules stretches).directives,
        ∀ point ∈ directive.point?, point.hasMonth = true := by
  refine Zone.resolveStretches_complete (fun stretch hstretch => ?_) fun stretch hstretch => ?_
  · obtain ⟨span, hspan⟩ := exists_ofStretch? h stretch hstretch
    rw [Zone.resolveSavings_of_fixedSave? (ofStretch?_cases hspan).1]
    simp [Stretch.fixedDirectives, Directive.point?]
  · obtain ⟨span, hspan⟩ := exists_ofStretch? h stretch hstretch
    exact (ofStretch?_cases hspan).2.2.2.2

end Span

namespace Source.Zone

/-- A zone without rules whose stretches end one after the other, in time and in local time, answers
at every instant what its spans say. -/
theorem built_follows_spans (zone : Zone) (rules : String → Option RuleSet) (id : String)
    {spans : List Span} (hspans : Span.ofStretches? zone.stretches = some spans)
    (hendings : (Instant.earliest :: Span.endings spans).Pairwise (· < ·))
    (hlocalEndings : (Instant.earliest :: Span.localEndings spans).Pairwise (· < ·)) :
    (zone.resolve rules).missing = none ∧
      ∃ built messages,
        (Draft.ofDirectives (zone.resolve rules).directives).build? id = some (built, messages) ∧
          built.tail = none ∧
          ∀ instant, Instant.earliest ≤ instant →
            Span.stateAt? spans instant = some (built.stateAt instant) := by
  obtain ⟨hmissing, hmonths⟩ := Span.resolveStretches_spans zone.name rules hspans
  obtain ⟨habove, hincreasing⟩ := List.pairwise_cons.mp hendings
  obtain ⟨hlocalAbove, hlocalIncreasing⟩ := List.pairwise_cons.mp hlocalEndings
  have hfilled : spans ≠ [] := by
    obtain ⟨_, _, ⟨_, rfl⟩ | ⟨_, _, _, _, rfl⟩⟩ := Span.ofStretches?_cons hspans <;> simp
  obtain ⟨htail, hagree⟩ := Span.walk_agrees zone.name rules true hspans hfilled {}
    (Span.advance_of_pairwise habove hlocalAbove hincreasing hlocalIncreasing)
    (Or.inl ⟨rfl, rfl⟩)
  let draft := Draft.ofDirectives (zone.resolve rules).directives
  have hdraft : draft = ⟨eras zone.name rules zone.stretches⟩ := ofDirectives_resolve zone hmissing
  have hlacks : draft.lacksMonth = false := Draft.ofDirectives_not_lacksMonth hmonths
  have hbuild : draft.build? id = some (draft.build id) := by simp [Draft.build?, hlacks]
  have hsimulate : draft.simulate true =
      Progress.walk true (eras zone.name rules zone.stretches) {} := by
    rw [hdraft, Draft.simulate]
  have hnoTail : (draft.build id).1.tail = none := by
    change (draft.simulate true).tail = none
    rw [hsimulate, htail]
  refine ⟨hmissing, (draft.build id).1, (draft.build id).2, hbuild, hnoTail,
    fun instant hinstant => ?_⟩
  obtain ⟨entry, hentry, hstate⟩ := hagree.later instant hinstant
  rw [← hsimulate] at hentry
  have hshown : (draft.build id).1.transitionAt? instant = some entry := by
    rw [← hentry]
    refine Draft.zoneOf_transitionAt? id (draft.simulate_sound true) ?_ instant
    intro hempty
    simp [hempty, History.at?] at hentry
  rw [hstate, TimeZone.stateAt_of_transitionAt? (TimeZone.tailAt?_of_tail_eq_none hnoTail instant)
    hshown]

def endedZone : Zone where
  name := "Z"
  first :=
    { standardOffset := -75000
      savings := none
      format := "LMT"
      untilYear := some 1847
      untilPoint := { month := 12 } }
  others :=
    [{ standardOffset := 0
       savings := some "1:00"
       format := "%z"
       untilYear := some 1900
       untilPoint := { clock := .universal, month := 3, day := -1, weekday := 7 } },
      { standardOffset := 7200000
        savings := none
        format := "EET"
        untilYear := some 1950
        untilPoint := {} }]

def endedSpans : List Span :=
  [⟨-75000, 0, "LMT", some (-3852662325000)⟩, ⟨0, 3600000, "+01", some (-2201817600000)⟩,
    ⟨7200000, 0, "EET", some (-631159200000)⟩]

theorem built_follows_spans_ended :
    Span.ofStretches? endedZone.stretches = some endedSpans ∧
      (Instant.earliest :: Span.endings endedSpans).Pairwise (· < ·) ∧
      (Instant.earliest :: Span.localEndings endedSpans).Pairwise (· < ·) ∧
      ∃ built messages,
        (Draft.ofDirectives (endedZone.resolve fun _ => none).directives).build? "Z" =
            some (built, messages) ∧
          built.stateAt 0 = ⟨7200000, 7200000, "??"⟩ := by
  have hspans : Span.ofStretches? endedZone.stretches = some endedSpans := by decide +kernel
  have hendings : (Instant.earliest :: Span.endings endedSpans).Pairwise (· < ·) := by decide
  have hlocalEndings : (Instant.earliest :: Span.localEndings endedSpans).Pairwise (· < ·) := by
    decide
  obtain ⟨-, built, messages, hbuild, -, hstate⟩ :=
    built_follows_spans endedZone (fun _ => none) "Z" hspans hendings hlocalEndings
  refine ⟨hspans, hendings, hlocalEndings, built, messages, hbuild, ?_⟩
  exact (Option.some.inj (hstate 0 (by decide))).symm.trans rfl

end Source.Zone

end CivilTime
