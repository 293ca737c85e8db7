import CivilTime.Compilation
import CivilTime.Proofs.Bytes
import CivilTime.Proofs.Disk

/-!
What the single steps of a compilation keep. `Session.Proceeds` says it for all of them: the
settings and the database stay, and messages are added, none of which says that a zone was not read
back. Every lemma here is about a step that succeeds.
-/

namespace CivilTime

/-- An error that begins with `*e*`: a zone was not read back from its file as it is. -/
def Message.IsReadBackError (message : Message) : Prop :=
  message.level = .error ∧ "*e*".toList <+: message.text.toList

structure BeginsOtherwise (text : String) : Prop where
  long : 3 ≤ text.toList.length
  other : ¬ "*e*".toList <+: text.toList

theorem BeginsOtherwise.append {text : String} (h : BeginsOtherwise text) (rest : String) :
    BeginsOtherwise (text ++ rest) := by
  have hstart : text.toList <+: (text ++ rest).toList := by simp
  refine ⟨h.long.trans hstart.length_le, fun herror => h.other ?_⟩
  exact List.prefix_of_prefix_length_le herror hstart h.long

def NoReadBackError (messages : List Message) : Prop :=
  ∀ message ∈ messages, ¬ message.IsReadBackError

namespace NoReadBackError

theorem nil : NoReadBackError [] := by
  simp [NoReadBackError]

theorem append {first second : List Message} (h : NoReadBackError first)
    (hsecond : NoReadBackError second) : NoReadBackError (first ++ second) := by
  intro message hmessage
  rcases List.mem_append.mp hmessage with hmem | hmem
  · exact h message hmem
  · exact hsecond message hmem

theorem of_level {messages : List Message} (h : ∀ message ∈ messages, message.level ≠ .error) :
    NoReadBackError messages :=
  fun message hmessage herror => h message hmessage herror.1

theorem single {level : Level} (hlevel : level ≠ .error) (text : String) :
    NoReadBackError [⟨level, text⟩] :=
  of_level (by simpa using hlevel)

theorem error {text : String} (h : BeginsOtherwise text) : NoReadBackError [.error text] := by
  intro message hmessage herror
  obtain rfl := List.mem_singleton.mp hmessage
  exact h.other herror.2

end NoReadBackError

theorem Verification.Defect.not_readBack (defect : Verification.Defect) (id : String) :
    NoReadBackError [.error (defect.message id)] := by
  cases defect with
  | unchanged millis =>
    have hstart : BeginsOtherwise "*d* Error in " := ⟨by decide, by decide⟩
    exact .error (((hstart.append _).append _).append _)
  | improperName millis name =>
    have hstart : BeginsOtherwise "*s* Error in " := ⟨by decide, by decide⟩
    exact .error (((((hstart.append _).append _).append _).append _).append _)
  | reverseMismatch millis expected =>
    have hstart : BeginsOtherwise "*r* Error in " := ⟨by decide, by decide⟩
    exact .error (((((hstart.append _).append _).append _).append _).append _)

namespace Verifier

variable (verifier : Verifier) (zone : Queries) (id : Option String)

theorem verify_years : (verifier.verify zone id).verifier.startYear = verifier.startYear ∧
    (verifier.verify zone id).verifier.endYear = verifier.endYear := by
  rw [verify]
  split
  · exact ⟨rfl, rfl⟩
  · split <;> exact ⟨rfl, rfl⟩

theorem verify_messages : NoReadBackError (verifier.verify zone id).messages := by
  rw [verify]
  split
  · exact .nil
  · split
    · exact .nil
    · next defect _ => exact defect.not_readBack zone.id
    · exact .nil

/-- The verdict depends on the years alone and not on the zones verified before. -/
theorem verify_verdict_congr {other : Verifier} (hstart : other.startYear = verifier.startYear)
    (hend : other.endYear = verifier.endYear) :
    (other.verify zone id).verdict = (verifier.verify zone id).verdict := by
  simp only [verify, hstart, hend]
  split
  · rfl
  · split <;> rfl

theorem verify_own_id : verifier.verify zone (some zone.id) = verifier.verify zone none := by
  simp [verify]

end Verifier

namespace Source

theorem Zone.resolveSavings_levels (name : String) (rules : String → Option RuleSet)
    (stretch : Stretch) :
    ∀ message ∈ (resolveSavings name rules stretch).messages, message.level = .info := by
  rw [resolveSavings]
  split
  · simp
  · split
    · simp
    · split
      · next set _ =>
        rw [RuleSet.messages]
        split
        · simp [Message.info]
        · simp
      · simp
    · simp

theorem Zone.resolve_levels (zone : Zone) (rules : String → Option RuleSet) :
    ∀ message ∈ (zone.resolve rules).messages, message.level = .info := by
  rw [resolve]
  generalize zone.stretches = stretches
  induction stretches with
  | nil => simp [resolveStretches]
  | cons stretch rest ih =>
    rw [resolveStretches]
    have hfirst := resolveSavings_levels zone.name rules stretch
    split
    · exact hfirst
    · exact hfirst
    · simp only [Resolution.before, List.append_nil, List.forall_mem_append]
      exact ⟨hfirst, ih⟩

theorem Database.readRecord_messages {database : Database} {backward : Bool}
    {text keyword : String} {fields : List String} {effect : Database.Effect}
    (h : database.readRecord backward text keyword fields = .ok effect) :
    NoReadBackError effect.messages := by
  unfold readRecord at h
  extract_lets word at h
  split_ifs at h
  · obtain ⟨_, _, h⟩ := Bytes.bind_eq_ok.mp h
    obtain ⟨_, _, h⟩ := Bytes.bind_eq_ok.mp h
    obtain rfl := Except.ok.inj h
    exact .nil
  · cases h
  · obtain ⟨_, _, h⟩ := Bytes.bind_eq_ok.mp h
    obtain rfl := Except.ok.inj h
    exact .nil
  · split at h
    · obtain rfl := Except.ok.inj h
      exact .nil
    · cases h
  · obtain rfl := Except.ok.inj h
    exact .single (by decide) _

theorem Database.readContinuation_messages {database : Database} {openZone : Option Zone}
    {text : String} {fields : List String} {effect : Database.Effect}
    (h : database.readContinuation openZone text fields = .ok effect) :
    NoReadBackError effect.messages := by
  cases openZone with
  | none =>
    obtain rfl := Except.ok.inj h
    exact .single (by decide) _
  | some zone =>
    obtain ⟨_, _, h⟩ := Bytes.bind_eq_ok.mp h
    obtain rfl := Except.ok.inj h
    exact .nil

theorem Reading.proceed_messages {reading : Reading} (h : NoReadBackError reading.messages)
    (text : String) (database : Database) {outcome : Except Fault Database.Effect}
    (houtcome : ∀ effect, outcome = .ok effect → NoReadBackError effect.messages) :
    NoReadBackError (reading.proceed text database outcome).messages := by
  cases outcome with
  | ok effect => exact h.append (houtcome effect rfl)
  | error fault =>
    refine h.append ?_
    split
    · have hstart : BeginsOtherwise "Error parsing line " := ⟨by decide, by decide⟩
      exact .error (((hstart.append _).append _).append _)
    · exact .nil

theorem Reading.readLine_messages {backward : Bool} {reading : Reading}
    (h : NoReadBackError reading.messages) (text : String) :
    NoReadBackError (reading.readLine backward text).messages := by
  rw [readLine]
  split
  · exact h
  · split
    · exact h
    · exact h
    · refine proceed_messages ?_ _ _ fun _ => Database.readContinuation_messages
      exact h
    · refine proceed_messages ?_ _ _ fun _ => Database.readRecord_messages
      exact h

theorem Database.readLines_messages (database : Database) (backward : Bool) (lines : List String) :
    NoReadBackError (database.readLines backward lines).messages := by
  have hfold : ∀ (lines : List String) (reading : Reading), NoReadBackError reading.messages →
      NoReadBackError (lines.foldl (Reading.readLine backward) reading).messages := by
    intro lines
    induction lines with
    | nil => exact fun _ h => h
    | cons line rest ih => exact fun reading h => ih _ (Reading.readLine_messages h line)
  exact hfold lines { database } .nil

theorem Database.readPath_messages (database : Database) (disk : Disk) (path : String) :
    NoReadBackError (database.readPath disk path).messages := by
  have hstart : NoReadBackError [.info ("Processing " ++ path)] := .single (by decide) _
  rw [readPath]
  split
  · exact hstart
  · split
    · exact hstart
    · exact hstart.append (database.readLines_messages _ _)

end Source

theorem Draft.messagesOf_levels (id : String) (progress : Progress) :
    ∀ message ∈ messagesOf id progress, message.level = .debug := by
  rw [messagesOf]
  split
  · simp [Message.debug]
  · simp

/-- The settings and the database stay, and what is reported is no failure to read back. -/
structure Session.Proceeds (before after : Session) : Prop where
  outputDirectory : after.outputDirectory = before.outputDirectory
  database : after.database = before.database
  startYear : after.verifier.startYear = before.verifier.startYear
  endYear : after.verifier.endYear = before.verifier.endYear
  messages : ∃ added, after.messages = before.messages ++ added ∧ NoReadBackError added

structure Session.Rests (before after : Session) : Prop extends Session.Proceeds before after where
  disk : after.disk = before.disk

def Session.Gathers (before after : Session) : Prop :=
  Session.Proceeds { before with database := after.database } after

namespace Session

theorem Proceeds.refl (session : Session) : Proceeds session session :=
  ⟨rfl, rfl, rfl, rfl, [], by simp, .nil⟩

theorem Proceeds.trans {first second third : Session} (h : Proceeds first second)
    (hnext : Proceeds second third) : Proceeds first third := by
  obtain ⟨added, hadded, hclean⟩ := h.messages
  obtain ⟨more, hmore, hcleanMore⟩ := hnext.messages
  exact ⟨hnext.outputDirectory.trans h.outputDirectory, hnext.database.trans h.database,
    hnext.startYear.trans h.startYear, hnext.endYear.trans h.endYear, added ++ more,
    by rw [hmore, hadded, List.append_assoc], hclean.append hcleanMore⟩

/-- A counter may have changed. -/
theorem Rests.of_fields {before after : Session}
    (houtput : after.outputDirectory = before.outputDirectory)
    (hdatabase : after.database = before.database) (hverifier : after.verifier = before.verifier)
    (hmessages : after.messages = before.messages) (hdisk : after.disk = before.disk) :
    Rests before after :=
  ⟨⟨houtput, hdatabase, by rw [hverifier], by rw [hverifier], [], by simp [hmessages], .nil⟩, hdisk⟩

theorem Proceeds.gathers {before after : Session} (h : Proceeds before after) :
    Gathers before after :=
  ⟨h.outputDirectory, rfl, h.startYear, h.endYear, h.messages⟩

theorem Gathers.trans {first second third : Session} (h : Gathers first second)
    (hnext : Gathers second third) : Gathers first third := by
  have hfirst : Proceeds { first with database := third.database }
      { second with database := third.database } :=
    ⟨h.outputDirectory, rfl, h.startYear, h.endYear, h.messages⟩
  exact hfirst.trans hnext

theorem Rests.trans {first second third : Session} (h : Rests first second)
    (hnext : Rests second third) : Rests first third :=
  ⟨h.toProceeds.trans hnext.toProceeds, hnext.disk.trans h.disk⟩

end Session

namespace Compilation

variable {α β : Type} {before after : Session}

theorem bind_eq_ok {step : Compilation α} {next : α → Compilation β} {b : β} :
    (step >>= next) before = .ok b after ↔
      ∃ a between, step before = .ok a between ∧ next a between = .ok b after := by
  change EStateM.bind step next before = _ ↔ _
  rw [EStateM.bind]
  cases hstep : step before with
  | ok a between => simp
  | error error between => simp

theorem bind_run {step : Compilation α} {next : α → Compilation β} {a : α} {between : Session}
    (h : step before = .ok a between) : (step >>= next) before = next a between := by
  change EStateM.bind step next before = _
  rw [EStateM.bind, h]

theorem bind_of_error {step : Compilation α} {error : CompilationError}
    (h : step before = .error error after) (next : α → Compilation β) :
    (step >>= next) before = .error error after := by
  change EStateM.bind step next before = _
  rw [EStateM.bind, h]

theorem report_rests {messages : List Message} {u : Unit} (hclean : NoReadBackError messages)
    (h : report messages before = .ok u after) : before.Rests after := by
  injection h with _ hafter
  subst hafter
  exact ⟨⟨rfl, rfl, rfl, rfl, messages, rfl, hclean⟩, rfl⟩

theorem check_eq_ok {ε : Type} {wrap : ε → CompilationError} {result : Except ε α} {a : α}
    (h : check wrap result before = .ok a after) : result = .ok a ∧ before = after := by
  cases result with
  | error error => cases h
  | ok value =>
    injection h with hvalue hafter
    exact ⟨by rw [hvalue], hafter⟩

theorem exists_disk_of_writeFile {path : String} {bytes : List UInt8} {u : Unit}
    (h : writeFile path bytes before = .ok u after) :
    ∃ disk, before.disk.write path bytes = .ok disk ∧ after = { before with disk } := by
  obtain ⟨_, _, hget, h⟩ := bind_eq_ok.mp h
  cases hget
  obtain ⟨disk, _, hchecked, h⟩ := bind_eq_ok.mp h
  obtain ⟨hwrite, rfl⟩ := check_eq_ok hchecked
  cases h
  exact ⟨disk, hwrite, rfl⟩

theorem writeFile_eq_ok {path : String} {bytes : List UInt8} {u : Unit}
    (h : writeFile path bytes before = .ok u after) :
    before.Proceeds after ∧ before.disk.write path bytes = .ok after.disk := by
  obtain ⟨disk, hwrite, rfl⟩ := exists_disk_of_writeFile h
  exact ⟨⟨rfl, rfl, rfl, rfl, [], by simp, .nil⟩, hwrite⟩

theorem makeDirectories_eq_ok_iff {existingAllowed : Bool} {path : String} {u : Unit} :
    makeDirectories existingAllowed path before = .ok u after ↔
      ∃ disk, before.disk.makeDirectories existingAllowed path.toList = { disk } ∧
        after = { before with disk } := by
  change (set { before with
      disk := (before.disk.makeDirectories existingAllowed path.toList).disk } >>= fun _ => _ :
    Compilation Unit) before = _ ↔ _
  cases hattempt : before.disk.makeDirectories existingAllowed path.toList with
  | mk disk error =>
    cases error with
    | none =>
      constructor
      · intro h
        cases h
        exact ⟨disk, rfl, rfl⟩
      · rintro ⟨_, hdisk, rfl⟩
        cases hdisk
        rfl
    | some error =>
      constructor
      · intro h
        cases h
      · rintro ⟨_, hdisk, -⟩
        cases hdisk

theorem makeDirectories_eq_ok {existingAllowed : Bool} {path : String} {u : Unit}
    (h : makeDirectories existingAllowed path before = .ok u after) :
    before.Proceeds after ∧
      before.disk.makeDirectories existingAllowed path.toList = { disk := after.disk } := by
  obtain ⟨disk, hdisk, rfl⟩ := makeDirectories_eq_ok_iff.mp h
  exact ⟨⟨rfl, rfl, rfl, rfl, [], by simp, .nil⟩, hdisk⟩

/-- The output directory is there or can be made; nothing but the disk changes. -/
theorem prepareDirectory_eq_ok_iff {path : String} {u : Unit} :
    prepareDirectory path before = .ok u after ↔
      ∃ disk, (if before.disk.pathExists path then { disk := before.disk }
          else before.disk.makeDirectories false path.toList) = { disk } ∧
        disk.isDirectory path = true ∧ after = { before with disk } := by
  have hfinish : ∀ session : Session,
      (do unless (← get).disk.isDirectory path do throw (.disk .notDirectory) : Compilation Unit)
        session = .ok u after ↔ session.disk.isDirectory path = true ∧ after = session := by
    intro session
    change (if session.disk.isDirectory path then pure () else throw (.disk .notDirectory) :
      Compilation Unit) session = .ok u after ↔ _
    cases session.disk.isDirectory path with
    | false =>
      rw [if_neg Bool.false_ne_true]
      constructor
      · intro h
        cases h
      · rintro ⟨hfalse, -⟩
        cases hfalse
    | true =>
      rw [if_pos rfl]
      constructor
      · intro h
        injection h with _ hafter
        exact ⟨rfl, hafter.symm⟩
      · rintro ⟨-, rfl⟩
        rfl
  change (if before.disk.pathExists path then _ else makeDirectories false path >>= fun _ => _ :
    Compilation Unit) before = .ok u after ↔ _
  split_ifs with hexists
  · rw [hfinish]
    constructor
    · rintro ⟨hdirectory, rfl⟩
      exact ⟨after.disk, rfl, hdirectory, rfl⟩
    · rintro ⟨disk, hdisk, hdirectory, rfl⟩
      cases hdisk
      exact ⟨hdirectory, rfl⟩
  · rw [bind_eq_ok]
    simp only [hfinish, makeDirectories_eq_ok_iff]
    constructor
    · rintro ⟨_, _, ⟨disk, hdisk, rfl⟩, hdirectory, rfl⟩
      exact ⟨disk, hdisk, hdirectory, rfl⟩
    · rintro ⟨disk, hdisk, hdirectory, rfl⟩
      exact ⟨(), _, ⟨disk, hdisk, rfl⟩, hdirectory, rfl⟩

theorem prepareDirectory_proceeds {path : String} {u : Unit}
    (h : prepareDirectory path before = .ok u after) : before.Proceeds after := by
  obtain ⟨disk, -, -, rfl⟩ := prepareDirectory_eq_ok_iff.mp h
  exact ⟨rfl, rfl, rfl, rfl, [], by simp, .nil⟩

/-- Up to its failure, resolving a zone does nothing but report. -/
theorem resolve_run {zone : Source.Zone} {id : String} {draft : Draft}
    (h : resolve zone id before = .ok draft after) :
    (zone.resolve before.database.ruleSet?).missing = none ∧
      draft = .ofDirectives (zone.resolve before.database.ruleSet?).directives ∧
      report (zone.resolve before.database.ruleSet?).messages before = .ok () after := by
  obtain ⟨_, _, hget, h⟩ := bind_eq_ok.mp h
  cases hget
  obtain ⟨_, _, hreport, h⟩ := bind_eq_ok.mp h
  cases hmissing : (zone.resolve before.database.ruleSet?).missing with
  | none =>
    simp only [hmissing] at h
    cases h
    exact ⟨rfl, rfl, hreport⟩
  | some missing =>
    simp only [hmissing] at h
    obtain ⟨_, _, _, h⟩ := bind_eq_ok.mp h
    cases h

theorem resolve_eq_ok {zone : Source.Zone} {id : String} {draft : Draft}
    (h : resolve zone id before = .ok draft after) :
    (zone.resolve before.database.ruleSet?).missing = none ∧
      draft = .ofDirectives (zone.resolve before.database.ruleSet?).directives ∧
      before.Rests after := by
  obtain ⟨hmissing, hdraft, hreport⟩ := resolve_run h
  refine ⟨hmissing, hdraft, report_rests (.of_level fun message hmessage => ?_) hreport⟩
  simp [zone.resolve_levels _ message hmessage]

theorem build_eq_ok {draft : Draft} {id : String} {zone : TimeZone}
    (h : build draft id before = .ok zone after) :
    zone = draft.toTimeZone id ∧ before.Rests after := by
  obtain ⟨_, _, hreport, h⟩ := bind_eq_ok.mp h
  cases h
  refine ⟨rfl, report_rests (.of_level fun message hmessage => ?_) hreport⟩
  simp [Draft.messagesOf_levels _ _ message hmessage]

theorem verify_run {zone : TimeZone} {passed : Bool}
    (h : verify zone before = .ok passed after) :
    (before.verifier.verify zone.queries none).verdict = .ok passed ∧
      after = { before with
        verifier := (before.verifier.verify zone.queries none).verifier
        messages := before.messages ++ (before.verifier.verify zone.queries none).messages } := by
  obtain ⟨_, _, hget, h⟩ := bind_eq_ok.mp h
  cases hget
  obtain ⟨_, _, hset, h⟩ := bind_eq_ok.mp h
  cases hset
  obtain ⟨hverdict, rfl⟩ := check_eq_ok h
  have hsame : before.verifier.verify zone.queries (some zone.id) =
      before.verifier.verify zone.queries none := before.verifier.verify_own_id zone.queries
  rw [hsame] at hverdict ⊢
  exact ⟨hverdict, rfl⟩

theorem verify_eq_ok {zone : TimeZone} {passed : Bool}
    (h : verify zone before = .ok passed after) :
    (before.verifier.verify zone.queries none).verdict = .ok passed ∧ before.Rests after := by
  obtain ⟨hverdict, rfl⟩ := verify_run h
  obtain ⟨hstart, hend⟩ := before.verifier.verify_years zone.queries none
  exact ⟨hverdict, ⟨rfl, rfl, hstart, hend, _, rfl, before.verifier.verify_messages _ _⟩, rfl⟩

theorem count_rests {change : Session → Session} {u : Unit}
    (hchange : before.Rests (change before))
    (h : (modify change : Compilation Unit) before = .ok u after) : before.Rests after := by
  cases h
  exact hchange

theorem dropLinks_rests {messages : List Message} {u : Unit} (hclean : NoReadBackError messages)
    (h : dropLinks messages before = .ok u after) : before.Rests after := by
  obtain ⟨_, _, hcount, h⟩ := bind_eq_ok.mp h
  exact (count_rests (.of_fields rfl rfl rfl rfl rfl) hcount).trans (report_rests hclean h)

theorem readSource_eq_ok_iff {path : String} {u : Unit} :
    readSource path before = .ok u after ↔
      (before.database.readPath before.disk path).error = none ∧
        after = { before with
          database := (before.database.readPath before.disk path).database
          messages :=
            before.messages ++ (before.database.readPath before.disk path).messages } := by
  change (set { before with
      database := (before.database.readPath before.disk path).database
      messages := before.messages ++ (before.database.readPath before.disk path).messages } >>=
    fun _ => _ : Compilation Unit) before = _ ↔ _
  cases herror : (before.database.readPath before.disk path).error with
  | none =>
    constructor
    · intro h
      cases h
      exact ⟨rfl, rfl⟩
    · rintro ⟨-, rfl⟩
      rfl
  | some error =>
    constructor
    · intro h
      cases h
    · rintro ⟨hnone, -⟩
      cases hnone

theorem readSource_gathers {path : String} {u : Unit}
    (h : readSource path before = .ok u after) : before.Gathers after := by
  obtain ⟨-, rfl⟩ := readSource_eq_ok_iff.mp h
  exact ⟨rfl, rfl, rfl, rfl, _, rfl, before.database.readPath_messages _ _⟩

theorem readSources_gathers {paths : List String} {u : Unit}
    (h : readSources paths before = .ok u after) : before.Gathers after := by
  induction paths generalizing before with
  | nil =>
    cases h
    exact (Session.Proceeds.refl _).gathers
  | cons path rest ih =>
    obtain ⟨_, _, hfirst, h⟩ := bind_eq_ok.mp h
    exact (readSource_gathers hfirst).trans (ih h)

theorem extract_gathers {sources : List String} {u : Unit}
    (h : extract sources before = .ok u after) : before.Gathers after := by
  obtain ⟨_, _, hstart, h⟩ := bind_eq_ok.mp h
  obtain ⟨_, between, hsources, h⟩ := bind_eq_ok.mp h
  obtain ⟨_, _, hget, h⟩ := bind_eq_ok.mp h
  cases hget
  have hsummary : NoReadBackError between.database.summary :=
    (NoReadBackError.single (by decide) _).append (.single (by decide) _)
  exact (report_rests (.single (by decide) _) hstart).toProceeds.gathers.trans
    ((readSources_gathers hsources).trans (report_rests hsummary h).toProceeds.gathers)

end Compilation

end CivilTime
