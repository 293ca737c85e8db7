import CivilTime.Proofs.Outcome

/-!
The figures of a compilation. `Session.account` takes them together: the zones that have passed and
those that have been written, the links that have been revived and those that have been dropped, and
the warnings. Most steps leave all of them as they are. Compiling a zone counts it as passed and, if
there is an output directory, as written, so that the two grow together.
-/

namespace CivilTime

open Source (Link)

def warningsIn (messages : List Message) : List Message :=
  messages.filter fun message => message.level = .warning

theorem warningsIn_append (first second : List Message) :
    warningsIn (first ++ second) = warningsIn first ++ warningsIn second :=
  List.filter_append first second

theorem warningsIn_of_level {messages : List Message} {level : Level} (hlevel : level ≠ .warning)
    (h : ∀ message ∈ messages, message.level = level) : warningsIn messages = [] := by
  apply List.filter_eq_nil_iff.mpr
  intro message hmessage
  simp [h message hmessage, hlevel]

theorem warningsIn_of_warnings {messages : List Message}
    (h : ∀ message ∈ messages, message.level = .warning) : warningsIn messages = messages := by
  apply List.filter_eq_self.mpr
  intro message hmessage
  simp [h message hmessage]

structure Account where
  passed : Nat
  written : Nat
  revived : Nat
  dropped : Nat
  warnings : List Message

def Session.account (session : Session) : Account where
  passed := session.verifier.passed
  written := session.zonesWritten
  revived := session.goodLinksRevived
  dropped := session.linksDropped
  warnings := warningsIn session.messages

def Compilation.sourceMissing (link : Link) : Message :=
  .warning ("Cannot find source zone '" ++ link.target ++ "' to link alias '" ++ link.name ++
    "' to")

/-- Zones have been compiled and good links have been gone through. The links that are `missing`
their sources have been dropped, each with a warning, and all others have been revived. -/
structure Account.Advances (output : Option String) (links missing : List Link)
    (first second : Account) : Prop where
  revived : second.revived + missing.length = first.revived + links.length
  dropped : second.dropped = first.dropped + missing.length
  warnings : second.warnings = first.warnings ++ missing.map Compilation.sourceMissing
  written : output ≠ none → second.written + first.passed = first.written + second.passed

namespace Account.Advances

variable {output : Option String} {links missing more moreMissing : List Link}
  {first second third : Account}

theorem refl (output : Option String) (account : Account) : Advances output [] [] account account :=
  ⟨rfl, rfl, (List.append_nil _).symm, fun _ => rfl⟩

theorem trans (h : Advances output links missing first second)
    (hnext : Advances output more moreMissing second third) :
    Advances output (links ++ more) (missing ++ moreMissing) first third := by
  obtain ⟨hrevived, hdropped, hwarnings, hwritten⟩ := h
  obtain ⟨hmoreRevived, hmoreDropped, hmoreWarnings, hmoreWritten⟩ := hnext
  refine ⟨?_, ?_, ?_, fun houtput => ?_⟩
  · rw [List.length_append, List.length_append]
    omega
  · rw [List.length_append]
    omega
  · rw [hmoreWarnings, hwarnings, List.map_append, List.append_assoc]
  · have hfirst := hwritten houtput
    have hsecond := hmoreWritten houtput
    omega

end Account.Advances

/-- A zone that comes to a verdict is counted if it passes, and no defect is a warning. -/
theorem Verifier.verify_counts {verifier : Verifier} {zone : Queries} {passed : Bool}
    (h : (verifier.verify zone none).verdict = .ok passed) :
    (verifier.verify zone none).verifier.passed = verifier.passed + passed.toNat ∧
      warningsIn (verifier.verify zone none).messages = [] := by
  rw [verify, if_neg (by simp)] at h ⊢
  split at h
  · obtain rfl := Except.ok.inj h
    exact ⟨rfl, rfl⟩
  · obtain rfl := Except.ok.inj h
    exact ⟨rfl, rfl⟩
  · cases h

namespace Compilation

variable {α β ι : Type} {before after session : Session} {u : Unit}

theorem report_account {messages : List Message} (h : report messages before = .ok u after) :
    after.account =
      { before.account with warnings := before.account.warnings ++ warningsIn messages } := by
  cases h
  simp only [Session.account, warningsIn_append]

theorem report_account_of_level {messages : List Message} {level : Level}
    (hlevel : level ≠ .warning) (hmessages : ∀ message ∈ messages, message.level = level)
    (h : report messages before = .ok u after) : after.account = before.account := by
  rw [report_account h, warningsIn_of_level hlevel hmessages, List.append_nil]

theorem report_account_single {level : Level} (hlevel : level ≠ .warning) {text : String}
    (h : report [⟨level, text⟩] before = .ok u after) : after.account = before.account :=
  report_account_of_level hlevel (by simp) h

theorem check_account {ε : Type} {wrap : ε → CompilationError} {result : Except ε α} {a : α}
    (h : check wrap result before = .ok a after) : after.account = before.account := by
  rw [(check_eq_ok h).2]

theorem writeFile_account {path : String} {bytes : List UInt8}
    (h : writeFile path bytes before = .ok u after) : after.account = before.account := by
  obtain ⟨disk, -, rfl⟩ := exists_disk_of_writeFile h
  rfl

theorem makeDirectories_account {existingAllowed : Bool} {path : String}
    (h : makeDirectories existingAllowed path before = .ok u after) :
    after.account = before.account := by
  obtain ⟨disk, -, rfl⟩ := makeDirectories_eq_ok_iff.mp h
  rfl

theorem prepareOutput_account {output : Option String}
    (h : prepareOutput output before = .ok u after) : after.account = before.account := by
  cases output with
  | none =>
    cases h
    rfl
  | some directory =>
    obtain ⟨disk, -, -, rfl⟩ := prepareDirectory_eq_ok_iff.mp h
    rfl

theorem resolve_account {source : Source.Zone} {id : String} {draft : Draft}
    (h : resolve source id before = .ok draft after) : after.account = before.account :=
  report_account_of_level (by decide) (source.resolve_levels _) (resolve_run h).2.2

theorem build_account {draft : Draft} {id : String} {zone : TimeZone}
    (h : build draft id before = .ok zone after) : after.account = before.account := by
  obtain ⟨_, _, hreport, h⟩ := bind_eq_ok.mp h
  cases h
  exact report_account_of_level (by decide) (Draft.messagesOf_levels _ _) hreport

theorem verify_account {zone : TimeZone} {passed : Bool}
    (h : verify zone before = .ok passed after) :
    after.account = { before.account with passed := before.account.passed + passed.toNat } := by
  obtain ⟨hverdict, rfl⟩ := verify_run h
  obtain ⟨hpassed, hmessages⟩ := Verifier.verify_counts hverdict
  simp only [Session.account, warningsIn_append, hpassed, hmessages, List.append_nil]

/-- With an output directory, writing a zone counts it. -/
theorem writeZone_account {draft : Draft} {zone : TimeZone}
    (h : writeZone draft zone before = .ok u after) :
    after.account = { before.account with
      written := before.account.written + before.outputDirectory.isSome.toNat } := by
  cases houtput : before.outputDirectory with
  | none =>
    rw [writeZone_of_no_output houtput] at h
    cases h
    rfl
  | some directory =>
    obtain ⟨_, reported, hreport, h⟩ := bind_eq_ok.mp (writeZone_eq_ok houtput h)
    obtain ⟨_, made, hmake, h⟩ := bind_eq_ok.mp h
    obtain ⟨_, created, hcreate, h⟩ := bind_eq_ok.mp h
    obtain ⟨written, built, hbuild, h⟩ := bind_eq_ok.mp h
    obtain ⟨bytes, encoded, hencode, h⟩ := bind_eq_ok.mp h
    obtain ⟨_, filled, hfill, h⟩ := bind_eq_ok.mp h
    obtain ⟨_, counted, hcount, h⟩ := bind_eq_ok.mp h
    obtain ⟨_, _, hget, h⟩ := bind_eq_ok.mp h
    cases hget
    obtain ⟨stored, found, hread, h⟩ := bind_eq_ok.mp h
    obtain ⟨reread, decoded, hdecode, h⟩ := bind_eq_ok.mp h
    have hfilled : filled.account = before.account := by
      rw [writeFile_account hfill, check_account hencode, build_account hbuild,
        writeFile_account hcreate, makeDirectories_account hmake,
        report_account_single (by decide) hreport]
    have hcounted : counted.account =
        { filled.account with written := filled.account.written + 1 } := by
      cases hcount
      rfl
    have hchecked : after.account = decoded.account := by
      split_ifs at h
      · cases h
        rfl
      · exact report_account_single (by decide) h
    rw [hchecked, check_account hdecode, check_account hread, hcounted, hfilled]
    rfl

/-- A zone that passes is written if there is an output directory, and one that fails is not. -/
theorem attempt_advances {source : Source.Zone} {id : String} {answer : Option TimeZone}
    (h : attempt source id before = .ok answer after) :
    before.account.Advances before.outputDirectory [] [] after.account := by
  obtain ⟨draft, resolved, hresolve, h⟩ := bind_eq_ok.mp h
  obtain ⟨zone, built, hbuild, h⟩ := bind_eq_ok.mp h
  obtain ⟨passed, verified, hverify, h⟩ := bind_eq_ok.mp h
  have houtput := (verdict_of_steps hresolve hbuild hverify).2.1.outputDirectory
  have hverified := verify_account hverify
  rw [build_account hbuild, resolve_account hresolve] at hverified
  cases passed with
  | false =>
    cases h
    rw [hverified]
    exact .refl _ _
  | true =>
    obtain ⟨_, written, hwrite, h⟩ := bind_eq_ok.mp h
    cases h
    rw [writeZone_account hwrite, hverified, houtput]
    refine ⟨rfl, rfl, (List.append_nil _).symm, fun hsome => ?_⟩
    obtain ⟨directory, hdirectory⟩ := Option.ne_none_iff_exists'.mp hsome
    simp only [hdirectory, Option.isSome_some, Bool.toNat_true]
    omega

theorem dropLinks_account {messages : List Message}
    (h : dropLinks messages before = .ok u after) :
    after.account = { before.account with
      dropped := before.account.dropped + messages.length
      warnings := before.account.warnings ++ warningsIn messages } := by
  obtain ⟨_, counted, hcount, h⟩ := bind_eq_ok.mp h
  rw [report_account h]
  cases hcount
  rfl

theorem noteLink_account {link : Link} {zone : TimeZone}
    (h : noteLink link (some zone) before = .ok u after) :
    after.account = { before.account with revived := before.account.revived + 1 } := by
  obtain ⟨_, counted, hcount, h⟩ := bind_eq_ok.mp h
  rw [report_account_single (by decide) h]
  cases hcount
  rfl

/-- A good link that has its source, and passes under its own name, is revived; one that has none is
dropped. -/
theorem reviveLink_advances {sources : NameMap Source.Zone} {link : Link}
    {answer : Option TimeZone}
    (hpasses : ∀ source, sources.find? link.target = some source →
      verdict before source link.name = .ok true)
    (h : reviveLink sources link before = .ok answer after) :
    before.account.Advances before.outputDirectory [link]
      ([link].filter fun link => (sources.find? link.target).isNone) after.account := by
  rw [reviveLink] at h
  cases hsource : sources.find? link.target with
  | none =>
    simp only [hsource] at h
    obtain ⟨_, dropped, hdrop, h⟩ := bind_eq_ok.mp h
    cases h
    simp only [List.filter_cons, hsource, dropLinks_account hdrop]
    exact ⟨rfl, rfl, rfl, fun _ => rfl⟩
  | some source =>
    simp only [hsource] at h
    obtain ⟨result, attempted, hattempt, h⟩ := bind_eq_ok.mp h
    obtain ⟨_, noted, hnote, h⟩ := bind_eq_ok.mp h
    cases h
    obtain ⟨-, -, -, rfl⟩ := attempt_sound hattempt
    simp only [passing?, hpasses source hsource] at hnote
    have hadvances := attempt_advances hattempt
    simp only [List.filter_cons, hsource, noteLink_account hnote]
    exact ⟨congrArg (· + 1) hadvances.revived, hadvances.dropped, hadvances.warnings,
      hadvances.written⟩

/-- What the steps of a loop do to the figures adds up. -/
theorem IsStep.each_advances {step : ι → Compilation β} {Fine : Session → Disk → ι → Prop}
    {answer : Session → ι → β} (hstep : IsStep step Fine answer) {add : α → ι → β → α}
    {links missing : ι → List Link} {items : List ι}
    (hadvances : ∀ item ∈ items, ∀ {before after : Session} {b : β}, session.SameSetting before →
      step item before = .ok b after →
        before.account.Advances session.outputDirectory (links item) (missing item) after.account)
    (hsame : session.SameSetting before) {collected result : α}
    (h : each step add collected items before = .ok result after) :
    before.account.Advances session.outputDirectory (items.flatMap links) (items.flatMap missing)
      after.account := by
  induction items generalizing before collected with
  | nil =>
    cases h
    exact .refl _ _
  | cons item rest ih =>
    obtain ⟨hfirst, hrest⟩ := List.forall_mem_cons.mp hadvances
    obtain ⟨b, between, hrun, h⟩ := bind_eq_ok.mp h
    have hbetween := hsame.trans (.of_proceeds (hstep.sound hrun).1)
    exact (hfirst hsame hrun).trans (ih hrest hbetween h)

/-- Compiling zones touches no link. -/
theorem each_attempt_advances {zones : List Source.Zone} {compiled result : Compiled}
    (hsame : session.SameSetting before)
    (h : each (fun source => attempt source source.name) Compiled.add compiled zones before =
      .ok result after) :
    before.account.Advances session.outputDirectory [] [] after.account := by
  have hadvances : before.account.Advances session.outputDirectory (zones.flatMap fun _ => [])
      (zones.flatMap fun _ => []) after.account := by
    refine isStep_attempt.each_advances (fun source _ _ _ _ hsame hrun => ?_) hsame h
    rw [← hsame.outputDirectory]
    exact attempt_advances hrun
  rwa [List.flatMap_eq_nil_iff.mpr fun _ _ => rfl] at hadvances

/-- Going through good links revives those that have their sources, provided that these pass under
the names of the links. -/
theorem each_reviveLink_advances {sources : NameMap Source.Zone} {links : List Link}
    {zones result : NameMap TimeZone}
    (hpasses : ∀ link ∈ links, ∀ source, sources.find? link.target = some source →
      verdict session source link.name = .ok true)
    (hsame : session.SameSetting before)
    (h : each (reviveLink sources) (fun zones link => zones.insert? link.name) zones links before =
      .ok result after) :
    before.account.Advances session.outputDirectory links
      (links.filter fun link => (sources.find? link.target).isNone) after.account := by
  have hadvances : before.account.Advances session.outputDirectory
      (links.flatMap fun link => [link])
      (links.flatMap fun link => [link].filter fun link => (sources.find? link.target).isNone)
      after.account := by
    refine (isStep_reviveLink sources).each_advances
      (fun link hlink _ _ _ hsame hrun => ?_) hsame h
    rw [← hsame.outputDirectory]
    refine reviveLink_advances (fun source hsource => ?_) hrun
    rw [verdict_congr hsame]
    exact hpasses link hlink source hsource
  rwa [← List.filter_flatMap, List.flatMap_singleton'] at hadvances

theorem readSources_account {paths : List String} (h : readSources paths before = .ok u after) :
    after.account = { before.account with warnings := after.account.warnings } := by
  induction paths generalizing before with
  | nil =>
    cases h
    rfl
  | cons path rest ih =>
    obtain ⟨_, read, hread, h⟩ := bind_eq_ok.mp h
    have hrest := ih h
    obtain ⟨-, rfl⟩ := readSource_eq_ok_iff.mp hread
    exact hrest

/-- Reading the sources may bring in warnings and nothing else. -/
theorem extract_account {sources : List String} (h : extract sources before = .ok u after) :
    after.account = { before.account with warnings := after.account.warnings } := by
  obtain ⟨_, started, hstart, h⟩ := bind_eq_ok.mp h
  obtain ⟨_, read, hread, h⟩ := bind_eq_ok.mp h
  obtain ⟨_, _, hget, h⟩ := bind_eq_ok.mp h
  cases hget
  rw [report_account h, readSources_account hread, report_account hstart]

theorem resolveLinks_account {zones names : NameMap TimeZone} {links : List Link}
    (h : resolveLinks zones links before = .ok names after) :
    after.account = { before.account with
      dropped := before.account.dropped + (LinkResolution.resolve zones links).unresolved.length
      warnings := before.account.warnings ++
        (LinkResolution.resolve zones links).unresolved.map LinkResolution.dropped } := by
  rw [resolveLinks_eq] at h
  cases h
  have hdropped : ∀ message ∈ (LinkResolution.resolve zones links).unresolved.map
      LinkResolution.dropped, message.level = .warning := by
    simp [LinkResolution.dropped, Message.warning]
  simp only [Session.account, warningsIn_append, warningsIn_of_warnings hdropped,
    warningsIn_of_level (by decide) (LinkResolution.resolve_levels zones links), List.append_nil]

def indexWarnings (names : NameMap TimeZone) (output : Option String) : List Message :=
  if output.isSome then (AliasIndex.sort names).2 else []

theorem indexOutput_account {names : NameMap TimeZone} {output : Option String}
    (h : indexOutput names output before = .ok u after) :
    after.account = { before.account with
      warnings := before.account.warnings ++ indexWarnings names output } := by
  cases output with
  | none =>
    cases h
    simp [indexWarnings]
  | some directory =>
    obtain ⟨_, started, hstart, h⟩ := bind_eq_ok.mp h
    obtain ⟨_, created, hcreate, h⟩ := bind_eq_ok.mp h
    obtain ⟨_, sorted, hsort, h⟩ := bind_eq_ok.mp h
    obtain ⟨bytes, encoded, hencode, h⟩ := bind_eq_ok.mp h
    have hwarnings := warningsIn_of_warnings (AliasIndex.sort_levels names)
    rw [writeFile_account h, check_account hencode, report_account hsort,
      writeFile_account hcreate, report_account_single (by decide) hstart]
    exact congrArg (fun warnings => { before.account with
      warnings := before.account.warnings ++ warnings }) hwarnings

end Compilation

end CivilTime
