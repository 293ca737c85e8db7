import CivilTime.Proofs.Accounts

/-!
Good links as copies. Nothing that a compilation finds out about a zone depends on the id under
which it is compiled. So a good link whose target has passed becomes the same zone under another id,
and is not dropped for a defect; only a link whose target is no zone that has passed is left out.
-/

namespace CivilTime

open Source (Link)

namespace Verification

theorem walkForward_congr {zone other : Queries} (hnext : other.next = zone.next)
    (hview : view? other = view? zone) (last : Int) (patience : Nat) (millis : Int) (view : View)
    (found : List Int) :
    walkForward other last patience millis view found =
      walkForward zone last patience millis view found := by
  fun_induction walkForward zone last patience millis view found
  all_goals
    rw [walkForward, hnext, hview]
    simp only [*, if_true, if_false, Bool.false_eq_true]

theorem walkBackward_congr {zone other : Queries} (hprevious : other.previous = zone.previous)
    (first millis : Int) (transitions : List Int) :
    walkBackward other first millis transitions = walkBackward zone first millis transitions := by
  induction transitions generalizing millis with
  | nil => rfl
  | cons transition rest ih =>
    rw [walkBackward, walkBackward, hprevious]
    simp only [ih]

/-- A walk is told by what the queries answer. -/
theorem walk_congr {zone other : Queries} (hview : view? other = view? zone)
    (hnext : other.next = zone.next) (hprevious : other.previous = zone.previous)
    (first last : Int) : walk other first last = walk zone first last := by
  rw [walk, walk, hview]
  simp only [walkForward_congr hnext hview, walkBackward_congr hprevious]

end Verification

namespace Compilation

variable {before after session : Session}

theorem sourceZone_withId (session : Session) (source : Source.Zone) (id other : String) :
    sourceZone session source id = { sourceZone session source other with id } :=
  rfl

/-- A zone passes under one id as under another. -/
theorem verdict_withId (session : Session) (source : Source.Zone) (id other : String) :
    verdict session source id = verdict session source other := by
  have hwalk := fun first last => Verification.walk_congr
    (show Verification.view? (sourceZone session source id).queries =
      Verification.view? (sourceZone session source other).queries from rfl) rfl rfl first last
  simp only [verdict, Verifier.verify, hwalk, Option.any_none, Bool.false_eq_true, if_false]
  split <;> rfl

/-- The zone that a good link leads to, under the name of the link. -/
def linkCopy? (session : Session) (link : Link) : Option TimeZone :=
  (lastPassing? session link.target).map fun source =>
    { sourceZone session source source.name with id := link.name }

def unverified (session : Session) : List Link :=
  session.database.goodLinks.filter fun link => (lastPassing? session link.target).isNone

def unresolved (session : Session) : List Link :=
  (LinkResolution.resolve (zonesOf session) session.database.backLinks).unresolved

theorem unverified_congr (h : before.Proceeds after) : unverified after = unverified before := by
  unfold unverified
  simp only [h.database, lastPassing?_congr h]

theorem unresolved_congr (h : before.Proceeds after) : unresolved after = unresolved before := by
  unfold unresolved
  rw [h.database, zonesOf_congr h]

theorem verdict_of_lastPassing? {name : String} {source : Source.Zone}
    (h : lastPassing? session name = some source) (id : String) :
    verdict session source id = .ok true := by
  rw [verdict_withId session source id source.name]
  exact (lastPassing?_eq_some h).2.2

theorem revived?_eq (session : Session) (link : Link) :
    revived? (compiledOf session).sources session link = linkCopy? session link := by
  rw [revived?, (find?_compiledOf session link.target).1, linkCopy?]
  cases hsource : lastPassing? session link.target with
  | none => rfl
  | some source =>
    exact passing?_of_verdict (verdict_of_lastPassing? hsource link.name)

theorem zonesOf_eq (session : Session) : zonesOf session = session.database.goodLinks.foldl
    (fun zones link => zones.insert? link.name (linkCopy? session link))
    (compiledOf session).zones := by
  simp only [zonesOf, revived?_eq]

/-- What compiling does to the figures: it goes through the zones and the good links, then drops the
back links that lead nowhere and warns of the names that the index cannot have. -/
theorem compileRead_advances {answer : List (String × TimeZone)}
    (h : compileRead before = .ok answer after) :
    before.Proceeds after ∧ ∃ middle : Account,
      before.account.Advances before.outputDirectory before.database.goodLinks (unverified before)
        middle ∧
      after.account = { middle with
        dropped := middle.dropped + (unresolved before).length
        warnings := middle.warnings ++ (unresolved before).map LinkResolution.dropped ++
          indexWarnings (namesOf before) before.outputDirectory } := by
  obtain ⟨prepared, started, finished, ready, revived, linked, hprepare, hstart, hstarted, hcompile,
    hlinks, hready, hrevive, hresolve, hindex, rfl⟩ := compileRead_phases h
  have hlinked := ((isStep_reviveLink _).each_sound hrevive).1.trans
    (resolveLinks_rests hresolve).2.toProceeds
  refine ⟨hready.trans (hlinked.trans (indexOutput_sound hindex).1), revived.account, ?_, ?_⟩
  · have hzones := each_attempt_advances (.of_proceeds hstarted) hcompile
    have hgood := each_reviveLink_advances (fun link _ source hsource => by
      rw [(find?_compiledOf before link.target).1] at hsource
      exact verdict_of_lastPassing? hsource link.name) (.of_proceeds hready) hrevive
    simp only [(find?_compiledOf before _).1] at hgood
    rw [report_account_single (by decide) hstart, prepareOutput_account hprepare] at hzones
    rw [report_account_single (by decide) hlinks] at hgood
    exact hzones.trans hgood
  · rw [indexOutput_account hindex, resolveLinks_account hresolve]
    rfl

/-- The copy that a good link makes is in the answer, unless a later link takes its name. -/
theorem mem_names_of_linkCopy? {earlier later : List Link} {link : Link} {copy : TimeZone}
    (hlinks : session.database.goodLinks = earlier ++ link :: later)
    (hcopy : linkCopy? session link = some copy)
    (hlater : ∀ other ∈ later, other.name = link.name → linkCopy? session other = none)
    (hback : ∀ back ∈ session.database.backLinks, back.name ≠ link.name) :
    (link.name, copy) ∈ AliasIndex.sortByKey (namesOf session) := by
  apply AliasIndex.mem_sortByKey.mpr
  apply NameMap.mem_of_find?
  rw [namesOf, LinkResolution.resolve_find?_of_ne hback, zonesOf_eq, hlinks, List.foldl_append,
    List.foldl_cons, NameMap.find?_foldl_insert?_of_none hlater, NameMap.find?_insert?, if_pos rfl,
    hcopy]
  rfl

/-- Good links are copies. Under the name of a link the source of its target always passes, and what
the link brings into the map is the zone of that source with the name of the link as its id. It is
the last source of the target that passes; a link for which there is none is dropped with one
warning. Apart from these, links are dropped and warnings are given only for back links and for the
index. With an output directory, a zone is written for each one that passes. -/
theorem compile_copies_links {sources : List String} {session final : Session}
    {answer : List (String × TimeZone)} (h : compile sources session = .ok answer final) :
    (∀ link ∈ final.database.goodLinks, ∀ source,
        lastPassing? final link.target = some source →
          (compiledOf final).zones.find? link.target =
            some (sourceZone final source source.name) ∧
          verdict final source link.name = .ok true ∧
          sourceZone final source link.name =
            { sourceZone final source source.name with id := link.name }) ∧
      answer = AliasIndex.sortByKey (LinkResolution.resolve
        (final.database.goodLinks.foldl
          (fun zones link => zones.insert? link.name (linkCopy? final link))
          (compiledOf final).zones)
        final.database.backLinks).zones ∧
      (∀ earlier link later copy, final.database.goodLinks = earlier ++ link :: later →
        linkCopy? final link = some copy →
        (∀ other ∈ later, other.name = link.name → linkCopy? final other = none) →
        (∀ back ∈ final.database.backLinks, back.name ≠ link.name) →
          (link.name, copy) ∈ answer) ∧
      (∃ read, extract sources session = .ok () read ∧
        warningsIn final.messages = warningsIn read.messages ++
          (unverified final).map sourceMissing ++
          (unresolved final).map LinkResolution.dropped ++
          indexWarnings (namesOf final) final.outputDirectory) ∧
      final.goodLinksRevived + (unverified final).length =
        session.goodLinksRevived + final.database.goodLinks.length ∧
      final.linksDropped =
        session.linksDropped + (unverified final).length + (unresolved final).length ∧
      (final.outputDirectory ≠ none →
        final.zonesWritten + session.verifier.passed =
          session.zonesWritten + final.verifier.passed) := by
  rw [compile_eq] at h
  obtain ⟨_, read, hextract, h⟩ := bind_eq_ok.mp h
  obtain ⟨hproceeds, middle, hmiddle, haccount⟩ := compileRead_advances h
  rw [← unverified_congr hproceeds, ← hproceeds.database, ← hproceeds.outputDirectory] at hmiddle
  rw [← unresolved_congr hproceeds, ← namesOf_congr hproceeds, ← hproceeds.outputDirectory]
    at haccount
  have hread := extract_account hextract
  obtain ⟨-, -, -, -, hanswer, -⟩ := compileRead_sound h
  rw [← namesOf_congr hproceeds] at hanswer
  subst hanswer
  refine ⟨fun link _ source hsource => ⟨?_, ?_, ?_⟩, ?_, ?_, ⟨read, hextract, ?_⟩, ?_, ?_, ?_⟩
  · rw [(find?_compiledOf final link.target).2, hsource]
    rfl
  · exact verdict_of_lastPassing? hsource link.name
  · exact sourceZone_withId final source link.name source.name
  · rw [namesOf, zonesOf_eq]
  · exact fun _ _ _ _ hlinks hcopy => mem_names_of_linkCopy? hlinks hcopy
  · have hwarnings := congrArg Account.warnings haccount
    rw [hmiddle.warnings] at hwarnings
    exact hwarnings
  · have hrevived := congrArg Account.revived haccount
    have hbefore := congrArg Account.revived hread
    have hadvanced := hmiddle.revived
    dsimp only [Session.account] at hrevived hbefore hadvanced
    omega
  · have hdropped := congrArg Account.dropped haccount
    have hbefore := congrArg Account.dropped hread
    have hadvanced := hmiddle.dropped
    dsimp only [Session.account] at hdropped hbefore hadvanced
    omega
  · intro houtput
    have hwritten := congrArg Account.written haccount
    have hpassed := congrArg Account.passed haccount
    have hwrittenBefore := congrArg Account.written hread
    have hpassedBefore := congrArg Account.passed hread
    have hadvanced := hmiddle.written houtput
    dsimp only [Session.account] at hwritten hpassed hwrittenBefore hpassedBefore hadvanced
    omega

theorem compile_gathers {sources : List String} {answer : List (String × TimeZone)}
    (h : compile sources before = .ok answer after) : before.Gathers after := by
  rw [compile_eq] at h
  obtain ⟨_, read, hextract, h⟩ := bind_eq_ok.mp h
  exact (extract_gathers hextract).trans (compileRead_advances h).1.gathers

/-- The link is a copy of the second declaration of its target, and it is the only one. -/
theorem compile_copies_links_doubled :
    ∃ final, compile [] doubledSession = .ok doubledNames final ∧
      lastPassing? final "A" = some (steadySource 3600000) ∧
      linkCopy? final ⟨"A", "B"⟩ = some (steadyZone "B" 3600000) ∧
      final.goodLinksRevived = 1 ∧ final.zonesWritten = final.verifier.passed := by
  obtain ⟨final, hrun, hdatabase⟩ := exists_compile_doubled
  have hgathers := compile_gathers hrun
  have hzone : sourceZone final (steadySource 3600000) "A" = steadyZone "A" 3600000 := by
    rw [sourceZone, hdatabase]
    decide +kernel
  have hverdict : verdict final (steadySource 3600000) "A" = .ok true := by
    rw [verdict, hzone, Verifier.verify_verdict_congr {} _ _ hgathers.startYear hgathers.endYear]
    exact doubledZones_pass _ (by simp [doubledZones])
  have hlast : lastPassing? final "A" = some (steadySource 3600000) := by
    rw [lastPassing?, hdatabase]
    exact List.find?_cons_of_pos (decide_eq_true ⟨rfl, hverdict⟩)
  have hunverified : unverified final = [] := by
    simp [unverified, hdatabase, doubledDatabase, hlast]
  obtain ⟨-, -, -, -, hrevived, -, hwritten⟩ := compile_copies_links hrun
  rw [hunverified, hdatabase] at hrevived
  refine ⟨final, hrun, hlast, ?_, hrevived, ?_⟩
  · rw [linkCopy?, hlast, Option.map_some]
    exact congrArg some (congrArg (fun zone : TimeZone => { zone with id := "B" }) hzone)
  · have houtput : final.outputDirectory = some "out" := hgathers.outputDirectory
    simpa [doubledSession] using hwritten (by simp [houtput])

end Compilation

end CivilTime
