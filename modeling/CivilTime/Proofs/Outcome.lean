import CivilTime.Proofs.Installation
import CivilTime.Proofs.NameOrder
import CivilTime.Proofs.Output

/-!
What a compilation comes to, told from its session alone. Each zone and each link succeeds or fails
by itself: it needs its rules, a verdict and, if it passes, a file. Whether it can have the file is
told from the disk in the end, so that it does not matter what has been written before. If all
succeed, the answer is a fold over the zones and links.
-/

namespace CivilTime

/-- What the outcome for a zone depends on is the same in two sessions. -/
structure Session.SameSetting (first second : Session) : Prop where
  outputDirectory : second.outputDirectory = first.outputDirectory
  ruleSet : second.database.ruleSet? = first.database.ruleSet?
  startYear : second.verifier.startYear = first.verifier.startYear
  endYear : second.verifier.endYear = first.verifier.endYear

namespace Session.SameSetting

variable {first second : Session}

theorem symm (h : first.SameSetting second) : second.SameSetting first :=
  ⟨h.outputDirectory.symm, h.ruleSet.symm, h.startYear.symm, h.endYear.symm⟩

theorem trans {third : Session} (h : first.SameSetting second) (hnext : second.SameSetting third) :
    first.SameSetting third :=
  ⟨hnext.outputDirectory.trans h.outputDirectory, hnext.ruleSet.trans h.ruleSet,
    hnext.startYear.trans h.startYear, hnext.endYear.trans h.endYear⟩

theorem of_proceeds (h : first.Proceeds second) : first.SameSetting second :=
  ⟨h.outputDirectory, by rw [h.database], h.startYear, h.endYear⟩

end Session.SameSetting

namespace Compilation

open Source (Link)

variable {α β ι : Type} {before between after first second session : Session} {disk whole : Disk}

def sourceZone (session : Session) (source : Source.Zone) (id : String) : TimeZone :=
  (Draft.ofDirectives (source.resolve session.database.ruleSet?).directives).toTimeZone id

def verdict (session : Session) (source : Source.Zone) (id : String) :
    Except Verification.Failure Bool :=
  (session.verifier.verify (sourceZone session source id).queries none).verdict

/-- The zone that a source makes under an id, if it passes verification. -/
def passing? (session : Session) (source : Source.Zone) (id : String) : Option TimeZone :=
  match verdict session source id with
  | .ok true => some (sourceZone session source id)
  | _ => none

theorem passing?_of_verdict {source : Source.Zone} {id : String}
    (h : verdict session source id = .ok true) :
    passing? session source id = some (sourceZone session source id) := by
  simp only [passing?, h]

theorem passing?_of_ne {source : Source.Zone} {id : String}
    (h : verdict session source id ≠ .ok true) : passing? session source id = none := by
  rw [passing?]
  split
  · next hpassed => exact absurd hpassed h
  · rfl

/-- A source can be compiled under an id such that the file of its zone is on the disk. -/
structure Succeeds (session : Session) (disk : Disk) (source : Source.Zone) (id : String) :
    Prop where
  resolves : (source.resolve session.database.ruleSet?).missing = none
  judged : ∃ passed, verdict session source id = .ok passed
  written : verdict session source id = .ok true → ∀ directory ∈ session.outputDirectory,
    (∃ bytes, (sourceZone session source id).encode = .ok bytes) ∧
      Path.parent (Path.join directory id) ≠ "" ∧ disk.HasFile (Path.join directory id)

section

variable (h : first.SameSetting second) (source : Source.Zone) (id : String)

include h

theorem sourceZone_congr : sourceZone second source id = sourceZone first source id := by
  rw [sourceZone, h.ruleSet, sourceZone]

theorem verdict_congr : verdict second source id = verdict first source id := by
  unfold verdict
  rw [sourceZone_congr h]
  exact Verifier.verify_verdict_congr _ _ _ h.startYear h.endYear

theorem passing?_congr : passing? second source id = passing? first source id := by
  unfold passing?
  rw [verdict_congr h, sourceZone_congr h]

end

theorem Succeeds.congr (hsame : first.SameSetting second) {source : Source.Zone} {id : String}
    (h : Succeeds first disk source id) : Succeeds second disk source id := by
  constructor
  · rw [hsame.ruleSet]
    exact h.resolves
  · rw [verdict_congr hsame]
    exact h.judged
  · rw [verdict_congr hsame, sourceZone_congr hsame, hsame.outputDirectory]
    exact h.written

theorem Succeeds.of_within {source : Source.Zone} {id : String}
    (h : Succeeds session disk source id) (hwithin : disk.Within whole) :
    Succeeds session whole source id := by
  refine ⟨h.resolves, h.judged, fun hpassed directory hdirectory => ?_⟩
  obtain ⟨hencode, hparent, hfile⟩ := h.written hpassed directory hdirectory
  exact ⟨hencode, hparent, hfile.of_within hwithin⟩

theorem writeZone_of_no_output {draft : Draft} {zone : TimeZone}
    (h : before.outputDirectory = none) : writeZone draft zone before = .ok () before := by
  apply bind_eq_ok.mpr
  refine ⟨before, before, rfl, ?_⟩
  simp only [h]
  rfl

/-- A zone that has been written has its file, and nothing else is lost. -/
theorem writeZone_sound {draft : Draft} {zone : TimeZone} {u : Unit}
    (hzone : draft.toTimeZone zone.id = zone) (h : writeZone draft zone before = .ok u after) :
    before.Proceeds after ∧ before.disk.Within after.disk ∧
      ∀ directory ∈ before.outputDirectory, (∃ bytes, zone.encode = .ok bytes) ∧
        Path.parent (Path.join directory zone.id) ≠ "" ∧
        after.disk.HasFile (Path.join directory zone.id) := by
  cases houtput : before.outputDirectory with
  | none =>
    rw [writeZone_of_no_output houtput] at h
    cases h
    exact ⟨.refl before, .refl before.disk, by simp⟩
  | some directory =>
    obtain ⟨hproceeds, made, created, bytes, hmake, hcreate, hencode, hfill⟩ :=
      writeZoneBelow_steps hzone (writeZone_eq_ok houtput h)
    have hmade := before.disk.makeDirectories_grows true
      (Path.parent (Path.join directory zone.id)).toList
    rw [hmake] at hmade
    refine ⟨hproceeds, ?_, ?_⟩
    · exact (Disk.Within.of_grows hmade).trans
        ((Disk.Within.of_write hcreate).trans (.of_write hfill))
    · intro other hother
      obtain rfl := Option.some.inj hother
      exact ⟨⟨bytes, hencode⟩, Disk.parent_ne_empty hmake, bytes, Disk.read_write hfill⟩

/-- A zone can be written where its file is there in the end. -/
theorem writeZone_complete {draft : Draft} {zone : TimeZone}
    (hzone : draft.toTimeZone zone.id = zone) (hwithin : before.disk.Within whole)
    (h : ∀ directory ∈ before.outputDirectory, (∃ bytes, zone.encode = .ok bytes) ∧
      Path.parent (Path.join directory zone.id) ≠ "" ∧
      whole.HasFile (Path.join directory zone.id)) :
    ∃ after, writeZone draft zone before = .ok () after ∧ after.disk.Within whole := by
  cases houtput : before.outputDirectory with
  | none => exact ⟨before, writeZone_of_no_output houtput, hwithin⟩
  | some directory =>
    obtain ⟨⟨bytes, hencode⟩, hparent, hfile⟩ := h directory houtput
    obtain ⟨made, created, filled, hmake, hcreate, hfill, hfilled⟩ :=
      Disk.install_within hwithin hfile hparent bytes
    obtain ⟨after, hafter, rfl⟩ := exists_writeZone houtput hzone hencode hmake hcreate hfill
    exact ⟨after, hafter, hfilled⟩

def each (step : ι → Compilation β) (add : α → ι → β → α) (collected : α) :
    List ι → Compilation α
  | [] => return collected
  | item :: rest => do
    let answer ← step item
    each step add (add collected item answer) rest

/-- What a step does, told from the setting: it succeeds if it is fine with the disk in the end, and
then gives an answer. -/
structure IsStep (step : ι → Compilation β) (Fine : Session → Disk → ι → Prop)
    (answer : Session → ι → β) : Prop where
  sound : ∀ {item : ι} {before after : Session} {b : β}, step item before = .ok b after →
    before.Proceeds after ∧ before.disk.Within after.disk ∧ Fine before after.disk item ∧
      b = answer before item
  complete : ∀ {item : ι} {before : Session} {whole : Disk}, Fine before whole item →
    before.disk.Within whole →
      ∃ after, step item before = .ok (answer before item) after ∧ after.disk.Within whole
  answer_congr : ∀ {first second : Session}, first.SameSetting second →
    ∀ item, answer second item = answer first item
  fine_congr : ∀ {first second : Session} {disk : Disk} {item : ι}, first.SameSetting second →
    Fine first disk item → Fine second disk item
  fine_of_within : ∀ {session : Session} {disk whole : Disk} {item : ι}, Fine session disk item →
    disk.Within whole → Fine session whole item

namespace IsStep

variable {step : ι → Compilation β} {add : α → ι → β → α} {Fine : Session → Disk → ι → Prop}
  {answer : Session → ι → β}

/-- A loop that has come to its end has gone through steps that were all fine. -/
theorem each_sound (h : IsStep step Fine answer) {items : List ι} {collected result : α}
    (hrun : each step add collected items before = .ok result after) :
    before.Proceeds after ∧ before.disk.Within after.disk ∧
      (∀ item ∈ items, Fine before after.disk item) ∧
      result = items.foldl (fun collected item => add collected item (answer before item))
        collected := by
  induction items generalizing before collected with
  | nil =>
    cases hrun
    exact ⟨.refl _, .refl _, by simp, rfl⟩
  | cons item rest ih =>
    obtain ⟨b, between, hstep, hrest⟩ := bind_eq_ok.mp hrun
    obtain ⟨hproceeds, hwithin, hfine, rfl⟩ := h.sound hstep
    obtain ⟨hnext, hrestWithin, hrestFine, hresult⟩ := ih hrest
    have hsame := Session.SameSetting.of_proceeds hproceeds
    refine ⟨hproceeds.trans hnext, hwithin.trans hrestWithin, ?_, ?_⟩
    · rw [List.forall_mem_cons]
      exact ⟨h.fine_of_within hfine hrestWithin,
        fun other hother => h.fine_congr hsame.symm (hrestFine other hother)⟩
    · simpa only [List.foldl_cons, h.answer_congr hsame] using hresult

/-- A loop whose steps are all fine comes to its end. -/
theorem each_complete (h : IsStep step Fine answer) {items : List ι}
    (hfine : ∀ item ∈ items, Fine before whole item) (hwithin : before.disk.Within whole)
    (collected : α) :
    ∃ after, each step add collected items before =
        .ok (items.foldl (fun collected item => add collected item (answer before item)) collected)
          after ∧
      after.disk.Within whole := by
  induction items generalizing before collected with
  | nil => exact ⟨before, rfl, hwithin⟩
  | cons item rest ih =>
    obtain ⟨hfirst, hrest⟩ := List.forall_mem_cons.mp hfine
    obtain ⟨between, hstep, hbetween⟩ := h.complete hfirst hwithin
    have hsame := Session.SameSetting.of_proceeds (h.sound hstep).1
    have hrest := fun other hother => h.fine_congr hsame (hrest other hother)
    obtain ⟨after, hafter, hdisk⟩ :=
      ih hrest hbetween (add collected item (answer before item))
    simp only [h.answer_congr hsame] at hafter
    exact ⟨after, bind_eq_ok.mpr ⟨_, between, hstep, hafter⟩, hdisk⟩

end IsStep

def attempt (source : Source.Zone) (id : String) : Compilation (Option TimeZone) := do
  let draft ← resolve source id
  let zone ← build draft id
  if ← verify zone then
    writeZone draft zone
    return some zone
  else return none

theorem attempt_sound {source : Source.Zone} {id : String} {answer : Option TimeZone}
    (h : attempt source id before = .ok answer after) :
    before.Proceeds after ∧ before.disk.Within after.disk ∧
      Succeeds before after.disk source id ∧ answer = passing? before source id := by
  obtain ⟨draft, _, hresolve, h⟩ := bind_eq_ok.mp h
  obtain ⟨zone, _, hbuild, h⟩ := bind_eq_ok.mp h
  obtain ⟨passed, verified, hverify, h⟩ := bind_eq_ok.mp h
  obtain ⟨hmissing, rfl, -⟩ := resolve_eq_ok hresolve
  obtain ⟨rfl, hrests, hverdict⟩ := verdict_of_steps hresolve hbuild hverify
  have hsame := Session.SameSetting.of_proceeds hrests.toProceeds
  have hjudged : verdict before source id = .ok passed := by
    rw [← verdict_congr hsame, verdict, sourceZone_congr hsame]
    exact hverdict
  cases passed with
  | false =>
    cases h
    refine ⟨hrests.toProceeds, ?_, ⟨hmissing, ⟨false, hjudged⟩, ?_⟩, ?_⟩
    · rw [hrests.disk]
      exact .refl before.disk
    · intro hpassed
      rw [hjudged] at hpassed
      cases hpassed
    · simp only [passing?, hjudged]
  | true =>
    obtain ⟨_, written, hwrite, h⟩ := bind_eq_ok.mp h
    cases h
    obtain ⟨hproceeds, hwithin, hfile⟩ := writeZone_sound rfl hwrite
    rw [hrests.disk] at hwithin
    rw [hrests.outputDirectory] at hfile
    refine ⟨hrests.toProceeds.trans hproceeds, hwithin, ⟨hmissing, ⟨true, hjudged⟩, ?_⟩, ?_⟩
    · exact fun _ => hfile
    · simp only [passing?, hjudged]
      rfl

theorem attempt_complete {source : Source.Zone} {id : String}
    (h : Succeeds before whole source id) (hwithin : before.disk.Within whole) :
    ∃ after, attempt source id before = .ok (passing? before source id) after ∧
      after.disk.Within whole := by
  obtain ⟨passed, hjudged⟩ := h.judged
  obtain ⟨resolved, built, verified, hresolve, hbuild, hverify, hrests⟩ :=
    exists_verified h.resolves rfl hjudged
  refine exists_bind hresolve (exists_bind hbuild (exists_bind hverify ?_))
  rw [← hrests.disk] at hwithin
  cases passed with
  | false =>
    refine ⟨verified, ?_, hwithin⟩
    simp only [passing?, hjudged]
    rfl
  | true =>
    have hfile := h.written hjudged
    rw [← hrests.outputDirectory] at hfile
    obtain ⟨after, hafter, hdisk⟩ := writeZone_complete rfl hwithin hfile
    refine exists_bind hafter ⟨after, ?_, hdisk⟩
    simp only [passing?, hjudged]
    rfl

def Compiled.add (compiled : Compiled) (source : Source.Zone) : Option TimeZone → Compiled
  | none => compiled
  | some zone =>
    { zones := compiled.zones.insert source.name zone
      sources := compiled.sources.insert source.name source }

theorem attempt_bind (source : Source.Zone) (id : String) (next : Option TimeZone → Compilation α) :
    attempt source id >>= next = (do
      let draft ← resolve source id
      let zone ← build draft id
      if ← verify zone then
        writeZone draft zone
        next (some zone)
      else next none) := by
  rw [attempt, bind_assoc]
  congr 1
  funext draft
  rw [bind_assoc]
  congr 1
  funext zone
  rw [bind_assoc]
  congr 1
  funext passed
  cases passed with
  | false => exact pure_bind none next
  | true =>
    rw [if_pos rfl, if_pos rfl, bind_assoc]
    simp only [pure_bind]

theorem compileZones_cons (compiled : Compiled) (source : Source.Zone) (rest : List Source.Zone) :
    compileZones compiled (source :: rest) =
      attempt source source.name >>= fun answer =>
        compileZones (compiled.add source answer) rest := by
  rw [compileZones, attempt_bind]
  rfl

theorem compileZones_eq_each (zones : List Source.Zone) (compiled : Compiled) :
    compileZones compiled zones =
      each (fun source => attempt source source.name) Compiled.add compiled zones := by
  induction zones generalizing compiled with
  | nil => rfl
  | cons source rest ih =>
    rw [compileZones_cons, each]
    simp only [ih]

theorem isStep_attempt : IsStep (fun source => attempt source source.name)
    (fun session disk source => Succeeds session disk source source.name)
    (fun session source => passing? session source source.name) where
  sound := attempt_sound
  complete := attempt_complete
  answer_congr := fun hsame source => passing?_congr hsame source source.name
  fine_congr := fun hsame h => h.congr hsame
  fine_of_within := Succeeds.of_within

def noteLink (link : Link) : Option TimeZone → Compilation Unit
  | none => modify fun session => { session with linksDropped := session.linksDropped + 1 }
  | some _ => do
    modify fun session => { session with goodLinksRevived := session.goodLinksRevived + 1 }
    report [.debug ("Good link: " ++ link.name ++ " -> " ++ link.target ++ " revived")]

theorem exists_noteLink (link : Link) (answer : Option TimeZone) (before : Session) :
    ∃ after, noteLink link answer before = .ok () after ∧ before.Rests after := by
  cases answer with
  | none => exact ⟨_, rfl, .of_fields rfl rfl rfl rfl rfl⟩
  | some zone => exact ⟨_, rfl, ⟨rfl, rfl, rfl, rfl, _, rfl, .single (by decide) _⟩, rfl⟩

def reviveLink (sources : NameMap Source.Zone) (link : Link) : Compilation (Option TimeZone) := do
  match sources.find? link.target with
  | none =>
    dropLinks [.warning ("Cannot find source zone '" ++ link.target ++ "' to link alias '" ++
      link.name ++ "' to")]
    return none
  | some source =>
    let answer ← attempt source link.name
    noteLink link answer
    return answer

theorem reviveLinks_cons (sources : NameMap Source.Zone) (zones : NameMap TimeZone) (link : Link)
    (rest : List Link) : reviveLinks sources zones (link :: rest) =
      reviveLink sources link >>= fun answer =>
        reviveLinks sources (zones.insert? link.name answer) rest := by
  rw [reviveLinks, reviveLink]
  cases hsource : sources.find? link.target with
  | none => rfl
  | some source =>
    simp only
    rw [bind_assoc, attempt_bind]
    simp only [noteLink, bind_assoc, pure_bind]
    rfl

theorem reviveLinks_eq_each (sources : NameMap Source.Zone) (zones : NameMap TimeZone)
    (links : List Link) : reviveLinks sources zones links =
      each (reviveLink sources) (fun zones link => zones.insert? link.name) zones links := by
  induction links generalizing zones with
  | nil => rfl
  | cons link rest ih =>
    rw [reviveLinks_cons, each]
    simp only [ih]

/-- What a good link comes to: the zone that it leads to, under the name of the link. -/
def revived? (sources : NameMap Source.Zone) (session : Session) (link : Link) : Option TimeZone :=
  (sources.find? link.target).bind fun source => passing? session source link.name

theorem reviveLink_sound {sources : NameMap Source.Zone} {link : Link} {answer : Option TimeZone}
    (h : reviveLink sources link before = .ok answer after) :
    before.Proceeds after ∧ before.disk.Within after.disk ∧
      (∀ source, sources.find? link.target = some source →
        Succeeds before after.disk source link.name) ∧
      answer = revived? sources before link := by
  rw [reviveLink] at h
  unfold revived?
  cases hsource : sources.find? link.target with
  | none =>
    simp only [hsource] at h
    obtain ⟨_, dropped, hdrop, h⟩ := bind_eq_ok.mp h
    cases h
    have hrests := dropLinks_rests (.single (by decide) _) hdrop
    refine ⟨hrests.toProceeds, ?_, by simp, rfl⟩
    rw [hrests.disk]
    exact .refl before.disk
  | some source =>
    simp only [hsource] at h
    obtain ⟨result, attempted, hattempt, h⟩ := bind_eq_ok.mp h
    obtain ⟨hproceeds, hwithin, hsucceeds, rfl⟩ := attempt_sound hattempt
    obtain ⟨noted, hnoted, hrests⟩ :=
      exists_noteLink link (passing? before source link.name) attempted
    obtain ⟨_, _, hnote, h⟩ := bind_eq_ok.mp h
    rw [hnoted] at hnote
    cases hnote
    cases h
    rw [← hrests.disk] at hwithin hsucceeds
    refine ⟨hproceeds.trans hrests.toProceeds, hwithin, ?_, rfl⟩
    intro other hother
    rwa [← Option.some.inj hother]

theorem reviveLink_complete {sources : NameMap Source.Zone} {link : Link}
    (h : ∀ source, sources.find? link.target = some source →
      Succeeds before whole source link.name) (hwithin : before.disk.Within whole) :
    ∃ after, reviveLink sources link before = .ok (revived? sources before link) after ∧
      after.disk.Within whole := by
  rw [reviveLink]
  unfold revived?
  cases hsource : sources.find? link.target with
  | none => exact ⟨_, rfl, hwithin⟩
  | some source =>
    obtain ⟨attempted, hattempt, hdisk⟩ := attempt_complete (h source hsource) hwithin
    obtain ⟨noted, hnoted, hrests⟩ :=
      exists_noteLink link (passing? before source link.name) attempted
    rw [← hrests.disk] at hdisk
    exact exists_bind hattempt (exists_bind hnoted ⟨noted, rfl, hdisk⟩)

theorem isStep_reviveLink (sources : NameMap Source.Zone) : IsStep (reviveLink sources)
    (fun session disk link => ∀ source, sources.find? link.target = some source →
      Succeeds session disk source link.name)
    (revived? sources) where
  sound := reviveLink_sound
  complete := reviveLink_complete
  answer_congr := by
    intro first second hsame link
    unfold revived?
    congr 1
    funext source
    exact passing?_congr hsame source link.name
  fine_congr := fun hsame h source hsource => (h source hsource).congr hsame
  fine_of_within := fun h hwithin source hsource => (h source hsource).of_within hwithin

def prepareOutput : Option String → Compilation Unit
  | none => pure ()
  | some directory => prepareDirectory directory

theorem prepareOutput_sound {output : Option String} {u : Unit}
    (h : prepareOutput output before = .ok u after) :
    before.Proceeds after ∧ ∀ directory ∈ output, after.disk.isDirectory directory = true := by
  cases output with
  | none =>
    cases h
    exact ⟨.refl before, by simp⟩
  | some directory =>
    refine ⟨prepareDirectory_proceeds h, fun other hother => ?_⟩
    obtain rfl := Option.some.inj hother
    obtain ⟨disk, -, hdirectory, rfl⟩ := prepareDirectory_eq_ok_iff.mp h
    exact hdirectory

/-- What becomes of the disk depends on nothing else in the session. -/
theorem prepareOutput_congr {output : Option String} {u : Unit} {other : Session}
    (h : prepareOutput output before = .ok u after) (hdisk : other.disk = before.disk) :
    prepareOutput output other = .ok () { other with disk := after.disk } := by
  cases output with
  | none =>
    cases h
    rw [← hdisk]
    rfl
  | some directory =>
    obtain ⟨disk, hprepared, hdirectory, rfl⟩ := prepareDirectory_eq_ok_iff.mp h
    rw [← hdisk] at hprepared
    exact prepareDirectory_eq_ok_iff.mpr ⟨disk, hprepared, hdirectory, rfl⟩

def indexOutput (names : NameMap TimeZone) : Option String → Compilation Unit
  | none => pure ()
  | some directory => writeIndex directory names

def indexOf (names : NameMap TimeZone) : Except Bytes.EncodeError (List UInt8) :=
  AliasIndex.encode ((AliasIndex.sort names).1.map fun (name, zone) => (name, zone.id))

theorem indexOutput_sound {names : NameMap TimeZone} {output : Option String} {u : Unit}
    (h : indexOutput names output before = .ok u after) :
    before.Proceeds after ∧ before.disk.Within after.disk ∧
      ∀ directory ∈ output, ∃ bytes, indexOf names = .ok bytes ∧
        after.disk.read (Path.join directory indexFile) = .ok bytes := by
  cases output with
  | none =>
    cases h
    exact ⟨.refl before, .refl before.disk, by simp⟩
  | some directory =>
    obtain ⟨hproceeds, created, bytes, hcreate, hencode, hfill⟩ := writeIndex_steps h
    refine ⟨hproceeds, (Disk.Within.of_write hcreate).trans (.of_write hfill), ?_⟩
    intro other hother
    obtain rfl := Option.some.inj hother
    exact ⟨bytes, hencode, Disk.read_write hfill⟩

/-- The index can be created and filled where its file is there in the end. -/
theorem exists_write_index {directory : String} (hwithin : disk.Within whole)
    (hdirectory : disk.isDirectory directory = true)
    (hfile : whole.HasFile (Path.join directory indexFile)) (bytes : List UInt8) :
    ∃ created filled, disk.write (Path.join directory indexFile) [] = .ok created ∧
      created.write (Path.join directory indexFile) bytes = .ok filled := by
  have hrelative : Path.isAbsolute indexFile = false := by decide
  have hcomponents : Path.components (Path.join directory indexFile) =
      Path.components directory ++ [indexFile] := by
    rw [Path.components_join hrelative]
    rfl
  obtain ⟨-, place, hplace⟩ := Disk.isDirectory_iff.mp hdirectory
  rw [Disk.base, ← Path.isAbsolute_join hrelative] at hplace
  obtain ⟨created, filled, hcreate, hfill, -⟩ :=
    Disk.write_twice_within hwithin hfile hcomponents hplace bytes
  exact ⟨created, filled, hcreate, hfill⟩

theorem indexOutput_complete {names : NameMap TimeZone} {output : Option String}
    (hwithin : before.disk.Within whole)
    (hdirectory : ∀ directory ∈ output, before.disk.isDirectory directory = true)
    (h : ∀ directory ∈ output, (∃ bytes, indexOf names = .ok bytes) ∧
      whole.HasFile (Path.join directory indexFile)) :
    ∃ after, indexOutput names output before = .ok () after := by
  cases output with
  | none => exact ⟨before, rfl⟩
  | some directory =>
    obtain ⟨⟨bytes, hencode⟩, hfile⟩ := h directory rfl
    obtain ⟨created, filled, hcreate, hfill⟩ :=
      exists_write_index hwithin (hdirectory directory rfl) hfile bytes
    obtain ⟨after, hafter, -⟩ : ∃ after, writeIndex directory names before = .ok () after ∧ True :=
      exists_bind rfl (exists_bind (writeFile_of_ok hcreate) (exists_bind rfl (exists_bind
        (check_of_ok hencode) ⟨_, writeFile_of_ok hfill, trivial⟩)))
    exact ⟨after, hafter⟩

def compileRead : Compilation (List (String × TimeZone)) := do
  let output := (← get).outputDirectory
  prepareOutput output
  report [.info "======== Compiling zones"]
  let compiled ← compileZones {} (← get).database.zones
  report [.info "======== Resolving links"]
  let zones ← reviveLinks compiled.sources compiled.zones (← get).database.goodLinks
  let names ← resolveLinks zones (← get).database.backLinks
  indexOutput names output
  return AliasIndex.sortByKey names

theorem compile_eq (sources : List String) :
    compile sources = extract sources >>= fun _ => compileRead := by
  unfold compile compileRead
  congr 1
  funext u
  congr 1
  funext session
  cases session.outputDirectory with
  | none => rfl
  | some directory => rfl

def compiledOf (session : Session) : Compiled :=
  session.database.zones.foldl
    (fun compiled source => compiled.add source (passing? session source source.name)) {}

/-- The zones that pass and those that good links become. -/
def zonesOf (session : Session) : NameMap TimeZone :=
  session.database.goodLinks.foldl
    (fun zones link => zones.insert? link.name (revived? (compiledOf session).sources session link))
    (compiledOf session).zones

def namesOf (session : Session) : NameMap TimeZone :=
  (LinkResolution.resolve (zonesOf session) session.database.backLinks).zones

theorem compiledOf_congr (h : before.Proceeds after) : compiledOf after = compiledOf before := by
  unfold compiledOf
  simp only [h.database, passing?_congr (.of_proceeds h)]

theorem zonesOf_congr (h : before.Proceeds after) : zonesOf after = zonesOf before := by
  unfold zonesOf revived?
  simp only [h.database, compiledOf_congr h, passing?_congr (.of_proceeds h)]

theorem namesOf_congr (h : before.Proceeds after) : namesOf after = namesOf before := by
  unfold namesOf
  rw [h.database, zonesOf_congr h]

def passesAs (session : Session) (name : String) (source : Source.Zone) : Bool :=
  source.name = name ∧ verdict session source source.name = .ok true

def lastPassing? (session : Session) (name : String) : Option Source.Zone :=
  session.database.zones.reverse.find? (passesAs session name)

theorem lastPassing?_eq_some {name : String} {source : Source.Zone}
    (h : lastPassing? session name = some source) :
    source ∈ session.database.zones ∧ source.name = name ∧
      verdict session source source.name = .ok true := by
  have hpasses : passesAs session name source = true := List.find?_some h
  exact ⟨List.mem_reverse.mp (List.mem_of_find?_eq_some h), of_decide_eq_true hpasses⟩

theorem lastPassing?_congr (h : before.Proceeds after) (name : String) :
    lastPassing? after name = lastPassing? before name := by
  unfold lastPassing? passesAs
  simp only [h.database, verdict_congr (.of_proceeds h)]

theorem find?_add (session : Session) (compiled : Compiled) (source : Source.Zone)
    (name : String) :
    (compiled.add source (passing? session source source.name)).sources.find? name =
        (if passesAs session name source then some source else compiled.sources.find? name) ∧
      (compiled.add source (passing? session source source.name)).zones.find? name =
        if passesAs session name source then some (sourceZone session source source.name)
        else compiled.zones.find? name := by
  by_cases hpassed : verdict session source source.name = .ok true
  · rw [passing?_of_verdict hpassed]
    simp [Compiled.add, NameMap.find?_insert, passesAs, hpassed, eq_comm]
  · rw [passing?_of_ne hpassed]
    simp [Compiled.add, passesAs, hpassed]

/-- What is found after zones have been compiled: what the last of them gives that passes, or what
was there before. -/
theorem find?_foldl_add (session : Session) (zones : List Source.Zone) (compiled : Compiled)
    (name : String) :
    (zones.foldl (fun compiled source =>
          compiled.add source (passing? session source source.name)) compiled).sources.find? name =
        (zones.reverse.find? (passesAs session name)).or (compiled.sources.find? name) ∧
      (zones.foldl (fun compiled source =>
          compiled.add source (passing? session source source.name)) compiled).zones.find? name =
        ((zones.reverse.find? (passesAs session name)).map fun source =>
          sourceZone session source source.name).or (compiled.zones.find? name) := by
  induction zones generalizing compiled with
  | nil => exact ⟨rfl, rfl⟩
  | cons source rest ih =>
    obtain ⟨hsources, hzones⟩ := ih (compiled.add source (passing? session source source.name))
    obtain ⟨hsource, hzone⟩ := find?_add session compiled source name
    rw [List.foldl_cons, hsources, hzones, hsource, hzone, List.reverse_cons, List.find?_append,
      List.find?_singleton, Option.map_or, Option.or_assoc, Option.or_assoc]
    cases passesAs session name source with
    | false => exact ⟨rfl, rfl⟩
    | true => exact ⟨rfl, rfl⟩

/-- A name leads to its last source that passes, and to the zone of that source. -/
theorem find?_compiledOf (session : Session) (name : String) :
    (compiledOf session).sources.find? name = lastPassing? session name ∧
      (compiledOf session).zones.find? name = (lastPassing? session name).map fun source =>
        sourceZone session source source.name := by
  obtain ⟨hsources, hzones⟩ := find?_foldl_add session session.database.zones {} name
  rw [show ({} : Compiled).sources.find? name = none from rfl, Option.or_none] at hsources
  rw [show ({} : Compiled).zones.find? name = none from rfl, Option.or_none] at hzones
  exact ⟨hsources, hzones⟩

/-- Everything that has been read can be compiled such that all files are on the disk. -/
structure Completes (session : Session) (disk : Disk) : Prop where
  zones : ∀ source ∈ session.database.zones, Succeeds session disk source source.name
  links : ∀ link ∈ session.database.goodLinks, ∀ source,
    (compiledOf session).sources.find? link.target = some source →
      Succeeds session disk source link.name
  index : ∀ directory ∈ session.outputDirectory, (∃ bytes, indexOf (namesOf session) = .ok bytes) ∧
    disk.HasFile (Path.join directory indexFile)

/-- The phases of compiling what has been read. Each of them begins in a session with the same
setting, so that all speak of the first one. -/
theorem compileRead_phases {answer : List (String × TimeZone)}
    (h : compileRead before = .ok answer after) :
    ∃ prepared started finished ready revived linked : Session,
      prepareOutput before.outputDirectory before = .ok () prepared ∧
      report [.info "======== Compiling zones"] prepared = .ok () started ∧
      before.Proceeds started ∧
      each (fun source => attempt source source.name) Compiled.add {} before.database.zones
        started = .ok (compiledOf before) finished ∧
      report [.info "======== Resolving links"] finished = .ok () ready ∧
      before.Proceeds ready ∧
      each (reviveLink (compiledOf before).sources) (fun zones link => zones.insert? link.name)
        (compiledOf before).zones before.database.goodLinks ready = .ok (zonesOf before) revived ∧
      resolveLinks (zonesOf before) before.database.backLinks revived =
        .ok (namesOf before) linked ∧
      indexOutput (namesOf before) before.outputDirectory linked = .ok () after ∧
      answer = AliasIndex.sortByKey (namesOf before) := by
  obtain ⟨_, _, hget, h⟩ := bind_eq_ok.mp h
  cases hget
  obtain ⟨_, prepared, hprepare, h⟩ := bind_eq_ok.mp h
  obtain ⟨_, started, hstart, h⟩ := bind_eq_ok.mp h
  obtain ⟨_, _, hget, h⟩ := bind_eq_ok.mp h
  cases hget
  obtain ⟨compiled, finished, hcompile, h⟩ := bind_eq_ok.mp h
  obtain ⟨_, ready, hlinks, h⟩ := bind_eq_ok.mp h
  obtain ⟨_, _, hget, h⟩ := bind_eq_ok.mp h
  cases hget
  obtain ⟨zones, revived, hrevive, h⟩ := bind_eq_ok.mp h
  obtain ⟨_, _, hget, h⟩ := bind_eq_ok.mp h
  cases hget
  obtain ⟨names, linked, hresolve, h⟩ := bind_eq_ok.mp h
  obtain ⟨_, _, hindex, h⟩ := bind_eq_ok.mp h
  cases h
  have hstarted := (prepareOutput_sound hprepare).1.trans
    (report_rests (.single (by decide) _) hstart).toProceeds
  rw [compileZones_eq_each] at hcompile
  obtain ⟨hfinished, -, -, hcompiled⟩ := isStep_attempt.each_sound hcompile
  have hready := hstarted.trans
    (hfinished.trans (report_rests (.single (by decide) _) hlinks).toProceeds)
  obtain rfl : compiled = compiledOf before := hcompiled.trans (compiledOf_congr hstarted)
  rw [reviveLinks_eq_each, ← compiledOf_congr hready] at hrevive
  obtain ⟨hrevived, -, -, hrevivedZones⟩ := (isStep_reviveLink _).each_sound hrevive
  obtain rfl : zones = zonesOf before := hrevivedZones.trans (zonesOf_congr hready)
  rw [(hready.trans hrevived).database] at hresolve
  obtain rfl : names = namesOf before := (resolveLinks_rests hresolve).1
  rw [hstarted.database] at hcompile
  rw [hready.database, compiledOf_congr hready] at hrevive
  exact ⟨prepared, started, finished, ready, revived, linked, hprepare, hstart, hstarted, hcompile,
    hlinks, hready, hrevive, hresolve, hindex, rfl⟩

theorem compileRead_sound {answer : List (String × TimeZone)}
    (h : compileRead before = .ok answer after) :
    ∃ prepared, prepareOutput before.outputDirectory before = .ok () prepared ∧
      prepared.disk.Within after.disk ∧ Completes before after.disk ∧
      answer = AliasIndex.sortByKey (namesOf before) ∧
      ∀ directory ∈ before.outputDirectory, ∃ bytes, indexOf (namesOf before) = .ok bytes ∧
        after.disk.read (Path.join directory indexFile) = .ok bytes := by
  obtain ⟨prepared, started, finished, ready, revived, linked, hprepare, hstart, hstarted, hcompile,
    hlinks, hready, hrevive, hresolve, hindex, rfl⟩ := compileRead_phases h
  obtain ⟨-, hfinishedDisk, hzones, -⟩ := isStep_attempt.each_sound hcompile
  obtain ⟨-, hrevivedDisk, hgood, -⟩ := (isStep_reviveLink _).each_sound hrevive
  obtain ⟨-, hindexDisk, hbytes⟩ := indexOutput_sound hindex
  rw [(resolveLinks_rests hresolve).2.disk] at hindexDisk
  rw [(report_rests (.single (by decide) _) hlinks).disk] at hrevivedDisk
  rw [(report_rests (.single (by decide) _) hstart).disk] at hfinishedDisk
  have hlinksDisk := hrevivedDisk.trans hindexDisk
  refine ⟨prepared, hprepare, hfinishedDisk.trans hlinksDisk, ⟨?_, ?_, ?_⟩, rfl, hbytes⟩
  · intro source hsource
    exact ((hzones source hsource).of_within hlinksDisk).congr
      (Session.SameSetting.of_proceeds hstarted).symm
  · intro link hlink source hsource
    exact ((hgood link hlink source hsource).of_within hindexDisk).congr
      (Session.SameSetting.of_proceeds hready).symm
  · intro directory hdirectory
    obtain ⟨bytes, hencode, hread⟩ := hbytes directory hdirectory
    exact ⟨⟨bytes, hencode⟩, bytes, hread⟩

theorem compileZones_complete
    (h : ∀ source ∈ before.database.zones, Succeeds before whole source source.name)
    (hwithin : before.disk.Within whole) :
    ∃ after, compileZones {} before.database.zones before = .ok (compiledOf before) after ∧
      before.Proceeds after ∧ before.disk.Within after.disk ∧ after.disk.Within whole := by
  obtain ⟨after, hrun, hdisk⟩ : ∃ after, each (fun source => attempt source source.name)
      Compiled.add {} before.database.zones before = .ok (compiledOf before) after ∧
        after.disk.Within whole := isStep_attempt.each_complete h hwithin _
  obtain ⟨hproceeds, hgrown, -⟩ := isStep_attempt.each_sound hrun
  exact ⟨after, by rw [compileZones_eq_each, hrun], hproceeds, hgrown, hdisk⟩

theorem reviveLinks_complete
    (h : ∀ link ∈ before.database.goodLinks, ∀ source,
      (compiledOf before).sources.find? link.target = some source →
        Succeeds before whole source link.name)
    (hwithin : before.disk.Within whole) :
    ∃ after, reviveLinks (compiledOf before).sources (compiledOf before).zones
        before.database.goodLinks before = .ok (zonesOf before) after ∧
      before.Proceeds after ∧ before.disk.Within after.disk ∧ after.disk.Within whole := by
  have hstep := isStep_reviveLink (compiledOf before).sources
  obtain ⟨after, hrun, hdisk⟩ : ∃ after, each (reviveLink (compiledOf before).sources)
      (fun zones link => zones.insert? link.name) (compiledOf before).zones
        before.database.goodLinks before = .ok (zonesOf before) after ∧ after.disk.Within whole :=
    hstep.each_complete h hwithin (compiledOf before).zones
  obtain ⟨hproceeds, hgrown, -⟩ := hstep.each_sound hrun
  exact ⟨after, by rw [reviveLinks_eq_each, hrun], hproceeds, hgrown, hdisk⟩

/-- If all zones and links succeed with the disk in the end, a run that stays within that disk comes
to the index. -/
theorem compileRead_eq_indexOutput {prepared : Session}
    (hprepare : prepareOutput before.outputDirectory before = .ok () prepared)
    (hwithin : prepared.disk.Within whole)
    (hzones : ∀ source ∈ before.database.zones, Succeeds before whole source source.name)
    (hgood : ∀ link ∈ before.database.goodLinks, ∀ source,
      (compiledOf before).sources.find? link.target = some source →
        Succeeds before whole source link.name) :
    ∃ linked : Session, linked.disk.Within whole ∧
      (∀ directory ∈ before.outputDirectory, linked.disk.isDirectory directory = true) ∧
      compileRead before = (do
        indexOutput (namesOf before) before.outputDirectory
        return AliasIndex.sortByKey (namesOf before)) linked := by
  obtain ⟨hprepared, hdirectory⟩ := prepareOutput_sound hprepare
  obtain ⟨started, hstart, hstarted⟩ : ∃ started,
      report [.info "======== Compiling zones"] prepared = .ok () started ∧
        prepared.Rests started := ⟨_, rfl, report_rests (.single (by decide) _) rfl⟩
  have hbefore := hprepared.trans hstarted.toProceeds
  rw [← hstarted.disk] at hwithin hdirectory
  obtain ⟨finished, hcompile, hfinished, hfinishedDisk, hfinishedWithin⟩ :
      ∃ finished, compileZones {} started.database.zones started =
          .ok (compiledOf started) finished ∧ started.Proceeds finished ∧
        started.disk.Within finished.disk ∧ finished.disk.Within whole := by
    apply compileZones_complete _ hwithin
    rw [hbefore.database]
    exact fun source hsource => (hzones source hsource).congr (.of_proceeds hbefore)
  obtain ⟨ready, hlinks, hready⟩ : ∃ ready,
      report [.info "======== Resolving links"] finished = .ok () ready ∧
        finished.Rests ready := ⟨_, rfl, report_rests (.single (by decide) _) rfl⟩
  have hlinking := hbefore.trans (hfinished.trans hready.toProceeds)
  rw [← hready.disk] at hfinishedDisk hfinishedWithin
  rw [← compiledOf_congr (hfinished.trans hready.toProceeds)] at hcompile
  obtain ⟨revived, hrevive, hrevived, hrevivedDisk, hrevivedWithin⟩ :
      ∃ revived, reviveLinks (compiledOf ready).sources (compiledOf ready).zones
          ready.database.goodLinks ready = .ok (zonesOf ready) revived ∧ ready.Proceeds revived ∧
        ready.disk.Within revived.disk ∧ revived.disk.Within whole := by
    apply reviveLinks_complete _ hfinishedWithin
    rw [hlinking.database, compiledOf_congr hlinking]
    exact fun link hlink source hsource =>
      (hgood link hlink source hsource).congr (.of_proceeds hlinking)
  rw [← zonesOf_congr hrevived] at hrevive
  obtain ⟨linked, hresolve⟩ : ∃ linked, resolveLinks (zonesOf revived) revived.database.backLinks
      revived = .ok (namesOf revived) linked := ⟨_, resolveLinks_eq _ _ revived⟩
  have hlinked := (resolveLinks_rests hresolve).2
  rw [namesOf_congr (hlinking.trans hrevived)] at hresolve
  rw [← hlinked.disk] at hrevivedDisk hrevivedWithin
  refine ⟨linked, hrevivedWithin, ?_, ?_⟩
  · intro directory houtput
    exact (hfinishedDisk.trans hrevivedDisk).isDirectory (hdirectory directory houtput)
  · refine (bind_run rfl).trans ((bind_run hprepare).trans ((bind_run hstart).trans ?_))
    refine (bind_run rfl).trans ((bind_run hcompile).trans ((bind_run hlinks).trans ?_))
    refine (bind_run rfl).trans ((bind_run hrevive).trans ?_)
    exact (bind_run rfl).trans (bind_run hresolve)

/-- If everything succeeds with the disk in the end, a run that stays within that disk succeeds. -/
theorem compileRead_complete {prepared : Session}
    (hprepare : prepareOutput before.outputDirectory before = .ok () prepared)
    (hwithin : prepared.disk.Within whole) (h : Completes before whole) :
    ∃ after, compileRead before = .ok (AliasIndex.sortByKey (namesOf before)) after := by
  obtain ⟨linked, hlinked, hdirectory, hrun⟩ :=
    compileRead_eq_indexOutput hprepare hwithin h.zones h.links
  obtain ⟨after, hindex⟩ := indexOutput_complete hlinked hdirectory h.index
  exact ⟨after, hrun.trans (bind_of_ok hindex rfl)⟩

end Compilation

end CivilTime
