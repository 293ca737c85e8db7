import CivilTime.Proofs.AliasIndex
import CivilTime.Proofs.Links
import CivilTime.Proofs.Session

/-!
What a compilation leaves in its output directory. Every zone of the answer has passed verification
and can be read back from its file, and the index leads from every name to the zone of the answer.

The invariant is that the map of the zones compiled so far and the files agree: a zone of an id that
has been compiled before takes the place of the older one in both.
-/

namespace CivilTime

namespace Compilation

variable {α β : Type} {before between after : Session} {directory : String}

def Stores (disk : Disk) (directory : String) (zone : TimeZone) : Prop :=
  ∃ bytes, disk.read (Path.join directory zone.id) = .ok bytes ∧
    TimeZone.decode bytes zone.id = .ok zone

theorem Stores.of_grows {disk larger : Disk} {zone : TimeZone} (h : Stores disk directory zone)
    (hplain : Path.IsPlain zone.id) (hgrows : disk.Grows larger) :
    Stores larger directory zone := by
  obtain ⟨bytes, hread, hdecode⟩ := h
  exact ⟨bytes, hgrows.read (hplain.namesFile directory) hread, hdecode⟩

/-- Another file may be written. -/
theorem Stores.of_write {disk written : Disk} {zone : TimeZone} (h : Stores disk directory zone)
    (hplain : Path.IsPlain zone.id) {name : String} (hname : Path.IsPlain name)
    (hne : zone.id ≠ name) {bytes : List UInt8}
    (hwrite : disk.write (Path.join directory name) bytes = .ok written) :
    Stores written directory zone := by
  obtain ⟨stored, hread, hdecode⟩ := h
  refine ⟨stored, ?_, hdecode⟩
  exact Disk.read_write_of_ne (hplain.namesFile directory)
    (Disk.placeOf_join_ne hplain hname hne disk directory) hwrite hread

/-- An id under which a zone can have a file beside the index. -/
structure IsFileId (id : String) : Prop where
  plain : Path.IsPlain id
  ne_index : id ≠ indexFile

structure Holds (session : Session) (directory : String) (zone : TimeZone) : Prop where
  fileId : IsFileId zone.id
  passes : (session.verifier.verify zone.queries none).verdict = .ok true
  stored : Stores session.disk directory zone

theorem Holds.of_proceeds {zone : TimeZone} (h : Holds before directory zone)
    (hproceeds : before.Proceeds after) (hstored : Stores after.disk directory zone) :
    Holds after directory zone := by
  refine ⟨h.fileId, ?_, hstored⟩
  rw [Verifier.verify_verdict_congr _ _ _ hproceeds.startYear hproceeds.endYear]
  exact h.passes

theorem Holds.of_rests {zone : TimeZone} (h : Holds before directory zone)
    (hrests : before.Rests after) : Holds after directory zone := by
  refine h.of_proceeds hrests.toProceeds ?_
  rw [hrests.disk]
  exact h.stored

/-- The zones of a map stand under their own ids, and all have been verified and written. -/
def HoldsAll (session : Session) (directory : String) (zones : NameMap TimeZone) : Prop :=
  ∀ entry ∈ zones, entry.1 = entry.2.id ∧ Holds session directory entry.2

theorem HoldsAll.of_rests {zones : NameMap TimeZone} (h : HoldsAll before directory zones)
    (hrests : before.Rests after) : HoldsAll after directory zones :=
  fun entry hentry => ⟨(h entry hentry).1, (h entry hentry).2.of_rests hrests⟩

/-- The steps of writing a zone. What is read again is what has just been written, so that no error
is reported. -/
theorem writeZoneBelow_steps {draft : Draft} {zone : TimeZone} {u : Unit}
    (hzone : draft.toTimeZone zone.id = zone)
    (h : writeZoneBelow directory draft zone before = .ok u after) :
    before.Proceeds after ∧ ∃ made created bytes,
      before.disk.makeDirectories true (Path.parent (Path.join directory zone.id)).toList =
        { disk := made } ∧
      made.write (Path.join directory zone.id) [] = .ok created ∧
      zone.encode = .ok bytes ∧
      created.write (Path.join directory zone.id) bytes = .ok after.disk := by
  obtain ⟨_, reported, hreport, h⟩ := bind_eq_ok.mp h
  have hreported := report_rests (.single (by decide) _) hreport
  obtain ⟨_, made, hparent, h⟩ := bind_eq_ok.mp h
  obtain ⟨hmade, hmake⟩ := makeDirectories_eq_ok hparent
  obtain ⟨_, created, hempty, h⟩ := bind_eq_ok.mp h
  obtain ⟨hcreated, hcreate⟩ := writeFile_eq_ok hempty
  obtain ⟨written, built, hbuild, h⟩ := bind_eq_ok.mp h
  obtain ⟨hwritten, hbuilt⟩ := build_eq_ok hbuild
  obtain ⟨bytes, _, hencoded, h⟩ := bind_eq_ok.mp h
  obtain ⟨hencode, rfl⟩ := check_eq_ok hencoded
  obtain ⟨_, filled, hcontent, h⟩ := bind_eq_ok.mp h
  obtain ⟨hfilled, hfill⟩ := writeFile_eq_ok hcontent
  obtain ⟨_, counted, hcount, h⟩ := bind_eq_ok.mp h
  have hcounted : filled.Rests counted := count_rests (.of_fields rfl rfl rfl rfl rfl) hcount
  obtain ⟨_, _, hget, h⟩ := bind_eq_ok.mp h
  cases hget
  obtain ⟨stored, _, hstored, h⟩ := bind_eq_ok.mp h
  obtain ⟨hread, rfl⟩ := check_eq_ok hstored
  obtain ⟨reread, _, hreread, h⟩ := bind_eq_ok.mp h
  obtain ⟨hdecode, rfl⟩ := check_eq_ok hreread
  rw [hwritten, hzone] at hencode
  have hsame : reread = zone := by
    rw [hcounted.disk, Disk.read_write hfill] at hread
    rw [← Except.ok.inj hread, TimeZone.decode_of_encode hencode] at hdecode
    exact (Except.ok.inj hdecode).symm
  rw [if_pos hsame] at h
  cases h
  rw [hreported.disk] at hmake
  rw [hbuilt.disk, ← hcounted.disk] at hfill
  exact ⟨hreported.toProceeds.trans (hmade.trans (hcreated.trans (hbuilt.toProceeds.trans
    (hfilled.trans hcounted.toProceeds)))), made.disk, created.disk, bytes, hmake, hcreate, hencode,
    hfill⟩

/-- A zone that has been written can be read from its file. The files of zones with other ids stay.
-/
theorem writeZoneBelow_eq_ok {draft : Draft} {zone : TimeZone} {u : Unit}
    (hzone : draft.toTimeZone zone.id = zone)
    (h : writeZoneBelow directory draft zone before = .ok u after) :
    before.Proceeds after ∧ Stores after.disk directory zone ∧
      ∀ other : TimeZone, Path.IsPlain zone.id → Path.IsPlain other.id → other.id ≠ zone.id →
        Stores before.disk directory other → Stores after.disk directory other := by
  obtain ⟨hproceeds, made, created, bytes, hmake, hcreate, hencode, hfill⟩ :=
    writeZoneBelow_steps hzone h
  refine ⟨hproceeds, ⟨bytes, Disk.read_write hfill, TimeZone.decode_of_encode hencode⟩, ?_⟩
  intro other hplain hother hne hbefore
  have hgrows := before.disk.makeDirectories_grows true
    (Path.parent (Path.join directory zone.id)).toList
  rw [hmake] at hgrows
  have hcreated := (hbefore.of_grows hother hgrows).of_write hother hplain hne hcreate
  exact hcreated.of_write hother hplain hne hfill

theorem writeZone_eq_ok {draft : Draft} {zone : TimeZone} {u : Unit}
    (houtput : before.outputDirectory = some directory)
    (h : writeZone draft zone before = .ok u after) :
    writeZoneBelow directory draft zone before = .ok u after := by
  obtain ⟨_, _, hget, h⟩ := bind_eq_ok.mp h
  cases hget
  simpa only [houtput] using h

/-- A verified zone is written and takes its place in the map. -/
theorem writeZone_holds {zones : NameMap TimeZone} {draft : Draft} {zone : TimeZone} {u : Unit}
    (houtput : before.outputDirectory = some directory) (hzone : draft.toTimeZone zone.id = zone)
    (hpasses : (before.verifier.verify zone.queries none).verdict = .ok true)
    (h : writeZone draft zone before = .ok u after) :
    before.Proceeds after ∧ (IsFileId zone.id → HoldsAll before directory zones →
      HoldsAll after directory (zones.insert zone.id zone)) := by
  obtain ⟨hproceeds, hstored, hothers⟩ :=
    writeZoneBelow_eq_ok hzone (writeZone_eq_ok houtput h)
  refine ⟨hproceeds, fun hid hzones entry hentry => ?_⟩
  rcases NameMap.mem_insert hentry with rfl | ⟨hold, hne⟩
  · refine ⟨rfl, hid, ?_, hstored⟩
    rw [Verifier.verify_verdict_congr _ _ _ hproceeds.startYear hproceeds.endYear]
    exact hpasses
  · obtain ⟨hkey, hholds⟩ := hzones entry hold
    refine ⟨hkey, hholds.of_proceeds hproceeds ?_⟩
    exact hothers entry.2 hid.plain hholds.fileId.plain (hkey ▸ hne) hholds.stored

/-- Up to the verdict nothing but reports happens. -/
theorem verdict_of_steps {source : Source.Zone} {id : String} {draft : Draft} {zone : TimeZone}
    {passed : Bool} {resolved built : Session}
    (hresolve : resolve source id before = .ok draft resolved)
    (hbuild : build draft id resolved = .ok zone built)
    (hverify : verify zone built = .ok passed after) :
    zone = draft.toTimeZone id ∧ before.Rests after ∧
      (after.verifier.verify zone.queries none).verdict = .ok passed := by
  obtain ⟨hzone, hbuilt⟩ := build_eq_ok hbuild
  obtain ⟨hverdict, hverified⟩ := verify_eq_ok hverify
  refine ⟨hzone, (resolve_eq_ok hresolve).2.2.trans (hbuilt.trans hverified), ?_⟩
  rwa [Verifier.verify_verdict_congr _ _ _ hverified.startYear hverified.endYear]

/-- Compiling zones keeps the map and the files in agreement. -/
theorem compileZones_holds {zones : List Source.Zone} {compiled result : Compiled}
    (houtput : before.outputDirectory = some directory)
    (h : compileZones compiled zones before = .ok result after) :
    before.Proceeds after ∧ ((∀ zone ∈ zones, IsFileId zone.name) →
      HoldsAll before directory compiled.zones → HoldsAll after directory result.zones) := by
  induction zones generalizing before compiled with
  | nil =>
    cases h
    exact ⟨.refl _, fun _ hcompiled => hcompiled⟩
  | cons zone rest ih =>
    obtain ⟨draft, _, hresolve, h⟩ := bind_eq_ok.mp h
    obtain ⟨timeZone, _, hbuild, h⟩ := bind_eq_ok.mp h
    obtain ⟨passed, verified, hverify, h⟩ := bind_eq_ok.mp h
    obtain ⟨rfl, hrests, hverdict⟩ := verdict_of_steps hresolve hbuild hverify
    have houtput := hrests.outputDirectory.trans houtput
    split_ifs at h with hpassed
    · obtain ⟨_, _, hwrite, h⟩ := bind_eq_ok.mp h
      rw [hpassed] at hverdict
      obtain ⟨hwritten, hholds⟩ := writeZone_holds houtput rfl hverdict hwrite
      obtain ⟨hproceeds, hresult⟩ := ih (hwritten.outputDirectory.trans houtput) h
      refine ⟨hrests.toProceeds.trans (hwritten.trans hproceeds), fun hids hcompiled => ?_⟩
      obtain ⟨hid, hrest⟩ := List.forall_mem_cons.mp hids
      exact hresult hrest (hholds hid (hcompiled.of_rests hrests))
    · obtain ⟨hproceeds, hresult⟩ := ih houtput h
      refine ⟨hrests.toProceeds.trans hproceeds, fun hids hcompiled => ?_⟩
      exact hresult (List.forall_mem_cons.mp hids).2 (hcompiled.of_rests hrests)

/-- So does the revival of good links. -/
theorem reviveLinks_holds {links : List Source.Link} {sources : NameMap Source.Zone}
    {zones result : NameMap TimeZone} (houtput : before.outputDirectory = some directory)
    (h : reviveLinks sources zones links before = .ok result after) :
    before.Proceeds after ∧ ((∀ link ∈ links, IsFileId link.name) →
      HoldsAll before directory zones → HoldsAll after directory result) := by
  induction links generalizing before zones with
  | nil =>
    cases h
    exact ⟨.refl _, fun _ hzones => hzones⟩
  | cons link rest ih =>
    rw [reviveLinks] at h
    cases hsource : sources.find? link.target with
    | none =>
      simp only [hsource] at h
      obtain ⟨_, _, hdrop, h⟩ := bind_eq_ok.mp h
      have hdropped := dropLinks_rests (.single (by decide) _) hdrop
      obtain ⟨hproceeds, hresult⟩ := ih (hdropped.outputDirectory.trans houtput) h
      refine ⟨hdropped.toProceeds.trans hproceeds, fun hids hzones => ?_⟩
      exact hresult (List.forall_mem_cons.mp hids).2 (hzones.of_rests hdropped)
    | some source =>
      simp only [hsource] at h
      obtain ⟨draft, _, hresolve, h⟩ := bind_eq_ok.mp h
      obtain ⟨timeZone, _, hbuild, h⟩ := bind_eq_ok.mp h
      obtain ⟨passed, verified, hverify, h⟩ := bind_eq_ok.mp h
      obtain ⟨rfl, hrests, hverdict⟩ := verdict_of_steps hresolve hbuild hverify
      have houtput := hrests.outputDirectory.trans houtput
      split_ifs at h with hpassed
      · obtain ⟨_, written, hwrite, h⟩ := bind_eq_ok.mp h
        obtain ⟨_, counted, hcount, h⟩ := bind_eq_ok.mp h
        obtain ⟨_, reported, hreport, h⟩ := bind_eq_ok.mp h
        rw [hpassed] at hverdict
        obtain ⟨hwritten, hholds⟩ := writeZone_holds houtput rfl hverdict hwrite
        have hcounted : written.Rests counted :=
          count_rests (.of_fields rfl rfl rfl rfl rfl) hcount
        have hreported := hcounted.trans (report_rests (.single (by decide) _) hreport)
        obtain ⟨hproceeds, hresult⟩ :=
          ih (hreported.outputDirectory.trans (hwritten.outputDirectory.trans houtput)) h
        refine ⟨hrests.toProceeds.trans (hwritten.trans (hreported.toProceeds.trans hproceeds)),
          fun hids hzones => ?_⟩
        obtain ⟨hid, hrest⟩ := List.forall_mem_cons.mp hids
        exact hresult hrest ((hholds hid (hzones.of_rests hrests)).of_rests hreported)
      · obtain ⟨_, counted, hcount, h⟩ := bind_eq_ok.mp h
        have hcounted : verified.Rests counted :=
          count_rests (.of_fields rfl rfl rfl rfl rfl) hcount
        obtain ⟨hproceeds, hresult⟩ := ih (hcounted.outputDirectory.trans houtput) h
        refine ⟨hrests.toProceeds.trans (hcounted.toProceeds.trans hproceeds),
          fun hids hzones => ?_⟩
        exact hresult (List.forall_mem_cons.mp hids).2 (hzones.of_rests (hrests.trans hcounted))

theorem resolveLinks_rests {links : List Source.Link} {zones result : NameMap TimeZone}
    (h : resolveLinks zones links before = .ok result after) :
    result = (LinkResolution.resolve zones links).zones ∧ before.Rests after := by
  obtain ⟨_, _, hcount, h⟩ := bind_eq_ok.mp h
  have hcounted := count_rests (.of_fields rfl rfl rfl rfl rfl) hcount
  obtain ⟨_, _, hreport, h⟩ := bind_eq_ok.mp h
  have hreported := report_rests (.of_level fun message hmessage => by
    simp [LinkResolution.resolve_levels zones links message hmessage]) hreport
  obtain ⟨_, _, hdrop, h⟩ := bind_eq_ok.mp h
  have hdropped := dropLinks_rests (.of_level fun message hmessage => by
    obtain ⟨link, -, rfl⟩ := List.mem_map.mp hmessage
    simp [LinkResolution.dropped, Message.warning]) hdrop
  cases h
  exact ⟨rfl, hcounted.trans (hreported.trans hdropped)⟩

/-- Back links bring in no zone that has not been written. -/
theorem resolveLinks_holds {links : List Source.Link} {zones result : NameMap TimeZone}
    (hzones : ∀ entry ∈ zones, Holds before directory entry.2)
    (h : resolveLinks zones links before = .ok result after) :
    ∀ entry ∈ result, Holds after directory entry.2 := by
  obtain ⟨rfl, hrests⟩ := resolveLinks_rests h
  intro entry hentry
  exact (LinkResolution.resolve_values hzones links entry hentry).of_rests hrests

theorem writeIndex_steps {zones : NameMap TimeZone} {u : Unit}
    (h : writeIndex directory zones before = .ok u after) :
    before.Proceeds after ∧ ∃ created bytes,
      before.disk.write (Path.join directory indexFile) [] = .ok created ∧
      AliasIndex.encode ((AliasIndex.sort zones).1.map fun (name, zone) => (name, zone.id)) =
        .ok bytes ∧
      created.write (Path.join directory indexFile) bytes = .ok after.disk := by
  obtain ⟨_, reported, hreport, h⟩ := bind_eq_ok.mp h
  have hreported := report_rests (.single (by decide) _) hreport
  obtain ⟨_, created, hempty, h⟩ := bind_eq_ok.mp h
  obtain ⟨hcreated, hcreate⟩ := writeFile_eq_ok hempty
  obtain ⟨_, sorted, hmessages, h⟩ := bind_eq_ok.mp h
  have hsorted := report_rests (.of_level fun message hmessage => by
    simp [AliasIndex.sort_levels zones message hmessage]) hmessages
  obtain ⟨bytes, _, hencoded, h⟩ := bind_eq_ok.mp h
  obtain ⟨hencode, rfl⟩ := check_eq_ok hencoded
  obtain ⟨hfilled, hfill⟩ := writeFile_eq_ok h
  rw [hreported.disk] at hcreate
  rw [hsorted.disk] at hfill
  exact ⟨hreported.toProceeds.trans (hcreated.trans (hsorted.toProceeds.trans hfilled)),
    created.disk, bytes, hcreate, hencode, hfill⟩

/-- The index is read back as it was written, and no file of a zone is touched. -/
theorem writeIndex_eq_ok {zones : NameMap TimeZone} {u : Unit}
    (h : writeIndex directory zones before = .ok u after) :
    before.Proceeds after ∧
      (∃ bytes, after.disk.read (Path.join directory indexFile) = .ok bytes ∧
        AliasIndex.decode bytes =
          .ok ((AliasIndex.sort zones).1.map fun (name, zone) => (name, zone.id))) ∧
      ∀ zone : TimeZone, IsFileId zone.id → Stores before.disk directory zone →
        Stores after.disk directory zone := by
  obtain ⟨hproceeds, created, bytes, hcreate, hencode, hfill⟩ := writeIndex_steps h
  have hindex : Path.IsPlain indexFile := by decide
  refine ⟨hproceeds, ⟨bytes, Disk.read_write hfill, AliasIndex.decode_of_encode hencode⟩, ?_⟩
  intro zone hid hstored
  have hcreated := hstored.of_write hid.plain hindex hid.ne_index hcreate
  exact hcreated.of_write hid.plain hindex hid.ne_index hfill

/-- The phases of a compilation with an output directory: reading, compiling zones, reviving good
links, resolving back links and writing the index. -/
theorem compile_phases {sources : List String} {answer : List (String × TimeZone)}
    (houtput : before.outputDirectory = some directory)
    (h : compile sources before = .ok answer after) :
    ∃ started finished ready revived linked : Session, ∃ compiled : Compiled,
      ∃ zones names : NameMap TimeZone,
      before.Gathers started ∧
      compileZones {} started.database.zones started = .ok compiled finished ∧
      finished.Rests ready ∧
      reviveLinks compiled.sources compiled.zones ready.database.goodLinks ready =
        .ok zones revived ∧
      resolveLinks zones revived.database.backLinks revived = .ok names linked ∧
      writeIndex directory names linked = .ok () after ∧
      answer = AliasIndex.sortByKey names := by
  obtain ⟨_, extracted, hextract, h⟩ := bind_eq_ok.mp h
  have hextracted := extract_gathers hextract
  obtain ⟨_, _, hget, h⟩ := bind_eq_ok.mp h
  cases hget
  simp only [hextracted.outputDirectory.trans houtput] at h
  obtain ⟨_, prepared, hprepare, h⟩ := bind_eq_ok.mp h
  have hprepared := prepareDirectory_proceeds hprepare
  obtain ⟨_, started, hstart, h⟩ := bind_eq_ok.mp h
  have hstarted := report_rests (.single (by decide) _) hstart
  obtain ⟨_, _, hget, h⟩ := bind_eq_ok.mp h
  cases hget
  obtain ⟨compiled, finished, hcompile, h⟩ := bind_eq_ok.mp h
  obtain ⟨_, ready, hlinks, h⟩ := bind_eq_ok.mp h
  have hready := report_rests (.single (by decide) _) hlinks
  obtain ⟨_, _, hget, h⟩ := bind_eq_ok.mp h
  cases hget
  obtain ⟨zones, revived, hrevive, h⟩ := bind_eq_ok.mp h
  obtain ⟨_, _, hget, h⟩ := bind_eq_ok.mp h
  cases hget
  obtain ⟨names, linked, hresolve, h⟩ := bind_eq_ok.mp h
  obtain ⟨_, _, hindex, h⟩ := bind_eq_ok.mp h
  cases h
  exact ⟨started, finished, ready, revived, linked, compiled, zones, names,
    hextracted.trans (hprepared.trans hstarted.toProceeds).gathers, hcompile, hready, hrevive,
    hresolve, hindex, rfl⟩

theorem bind_of_ok {step : Compilation α} {next : α → Compilation β} {a : α} {b : β}
    (h : step before = .ok a between) (hnext : next a between = .ok b after) :
    (step >>= next) before = .ok b after :=
  bind_eq_ok.mpr ⟨a, between, h, hnext⟩

theorem exists_bind {step : Compilation α} {next : α → Compilation β} {a : α} {b : β}
    {P : Session → Prop} (h : step before = .ok a between)
    (hnext : ∃ after, next a between = .ok b after ∧ P after) :
    ∃ after, (step >>= next) before = .ok b after ∧ P after := by
  obtain ⟨after, hafter, hp⟩ := hnext
  exact ⟨after, bind_of_ok h hafter, hp⟩

theorem exists_bind_of_exists {step : Compilation α} {next : α → Compilation β} {a : α} {b : β}
    {P Q : Session → Prop} (h : ∃ between, step before = .ok a between ∧ Q between)
    (hnext : ∀ between, Q between → ∃ after, next a between = .ok b after ∧ P after) :
    ∃ after, (step >>= next) before = .ok b after ∧ P after := by
  obtain ⟨between, hbetween, hq⟩ := h
  exact exists_bind hbetween (hnext between hq)

theorem check_of_ok {ε : Type} {wrap : ε → CompilationError} {result : Except ε α} {a : α}
    (h : result = .ok a) : check wrap result before = .ok a before := by
  rw [h]
  rfl

theorem writeFile_of_ok {path : String} {bytes : List UInt8} {disk : Disk}
    (h : before.disk.write path bytes = .ok disk) :
    writeFile path bytes before = .ok () { before with disk } :=
  bind_eq_ok.mpr ⟨before, before, rfl, bind_eq_ok.mpr ⟨disk, before, check_of_ok h, rfl⟩⟩

theorem makeDirectories_of_ok {existingAllowed : Bool} {path : String} {disk : Disk}
    (h : before.disk.makeDirectories existingAllowed path.toList = { disk }) :
    makeDirectories existingAllowed path before = .ok () { before with disk } :=
  makeDirectories_eq_ok_iff.mpr ⟨disk, h, rfl⟩

theorem exists_writeZone {draft : Draft} {zone : TimeZone} {bytes : List UInt8}
    {made created filled : Disk} (houtput : before.outputDirectory = some directory)
    (hzone : draft.toTimeZone zone.id = zone) (hencode : zone.encode = .ok bytes)
    (hmake : before.disk.makeDirectories true (Path.parent (Path.join directory zone.id)).toList =
      { disk := made })
    (hcreate : made.write (Path.join directory zone.id) [] = .ok created)
    (hfill : created.write (Path.join directory zone.id) bytes = .ok filled) :
    ∃ after, writeZone draft zone before = .ok () after ∧ after.disk = filled := by
  refine exists_bind rfl ?_
  simp only [houtput]
  refine exists_bind rfl (exists_bind (makeDirectories_of_ok hmake) (exists_bind
    (writeFile_of_ok hcreate) (exists_bind rfl (exists_bind (check_of_ok ?_) (exists_bind
    (writeFile_of_ok hfill) (exists_bind rfl (exists_bind rfl (exists_bind
    (check_of_ok (Disk.read_write hfill)) (exists_bind
    (check_of_ok (TimeZone.decode_of_encode hencode)) ?_)))))))))
  · rw [← hencode]
    exact congrArg TimeZone.encode hzone
  · exact ⟨_, by rw [if_pos rfl]; rfl, rfl⟩

/-- A zone that resolves and can be judged goes through the steps up to its verdict. -/
theorem exists_verified {source : Source.Zone} {id : String} {draft : Draft} {passed : Bool}
    (hmissing : (source.resolve before.database.ruleSet?).missing = none)
    (hdraft : .ofDirectives (source.resolve before.database.ruleSet?).directives = draft)
    (hverdict : (before.verifier.verify (draft.toTimeZone id).queries none).verdict = .ok passed) :
    ∃ resolved built verified, resolve source id before = .ok draft resolved ∧
      build draft id resolved = .ok (draft.toTimeZone id) built ∧
      verify (draft.toTimeZone id) built = .ok passed verified ∧ before.Rests verified := by
  obtain ⟨resolved, hresolve, -⟩ :
      ∃ resolved, resolve source id before = .ok draft resolved ∧ True := by
    refine exists_bind rfl (exists_bind rfl ?_)
    simp only [hmissing, hdraft]
    exact ⟨_, rfl, trivial⟩
  obtain ⟨built, hbuild⟩ : ∃ built, build draft id resolved = .ok (draft.toTimeZone id) built :=
    ⟨_, rfl⟩
  have hrests := (resolve_eq_ok hresolve).2.2.trans (build_eq_ok hbuild).2
  obtain ⟨verified, hverify, -⟩ :
      ∃ verified, verify (draft.toTimeZone id) built = .ok passed verified ∧ True := by
    refine exists_bind rfl (exists_bind rfl ⟨_, check_of_ok ?_, trivial⟩)
    rw [← hverdict, ← Verifier.verify_own_id]
    exact Verifier.verify_verdict_congr _ _ _ hrests.startYear hrests.endYear
  exact ⟨resolved, built, verified, hresolve, hbuild, hverify,
    hrests.trans (verify_eq_ok hverify).2⟩

/-- A zone that resolves, passes and can be written goes through all the steps. -/
theorem exists_steps {source : Source.Zone} {id : String} {bytes : List UInt8} {zone : TimeZone}
    {made created filled : Disk} (houtput : before.outputDirectory = some directory)
    (hmissing : (source.resolve before.database.ruleSet?).missing = none)
    (hzone : (Draft.ofDirectives (source.resolve before.database.ruleSet?).directives).toTimeZone
      id = zone)
    (hverdict : (before.verifier.verify zone.queries none).verdict = .ok true)
    (hencode : zone.encode = .ok bytes)
    (hmake : before.disk.makeDirectories true (Path.parent (Path.join directory id)).toList =
      { disk := made })
    (hcreate : made.write (Path.join directory id) [] = .ok created)
    (hfill : created.write (Path.join directory id) bytes = .ok filled) :
    ∃ draft resolved built verified written, resolve source id before = .ok draft resolved ∧
      build draft id resolved = .ok zone built ∧ verify zone built = .ok true verified ∧
      writeZone draft zone verified = .ok () written ∧ before.Proceeds written ∧
      written.disk = filled := by
  subst hzone
  obtain ⟨resolved, built, verified, hresolve, hbuild, hverify, hverified⟩ :=
    exists_verified hmissing rfl hverdict
  have houtput := hverified.outputDirectory.trans houtput
  rw [← hverified.disk] at hmake
  obtain ⟨written, hwrite, hdisk⟩ := exists_writeZone houtput rfl hencode hmake hcreate hfill
  exact ⟨_, resolved, built, verified, written, hresolve, hbuild, hverify, hwrite,
    hverified.toProceeds.trans (writeZoneBelow_eq_ok rfl (writeZone_eq_ok houtput hwrite)).1, hdisk⟩

/-- A zone without a transition after the first instant passes. -/
theorem verdict_of_still {verifier : Verifier} {zone : Queries} {view : Verification.View}
    (hview : Verification.view? zone (Instant.startOfYear verifier.startYear) = some view)
    (hnext : zone.next (Instant.startOfYear verifier.startYear) =
      some (Instant.startOfYear verifier.startYear)) :
    (verifier.verify zone none).verdict = .ok true := by
  have hforward : Verification.walkForward zone (Instant.startOfYear verifier.endYear)
      Verification.patience (Instant.startOfYear verifier.startYear) view [] = .done [] := by
    rw [Verification.walkForward, hnext]
    simp
  simp only [Verifier.verify, Verification.walk, hview, hforward]
  rfl

def steadyZone (id : String) (offset : Int) : TimeZone where
  id := id
  transitions := #[⟨Instant.earliest, "STD", offset, offset⟩]

def steadySource (offset : Int) : Source.Zone where
  name := "A"
  first :=
    { standardOffset := offset
      savings := none
      format := "STD"
      untilYear := none
      untilPoint := {} }

/-- A zone is declared twice, a good link leads to it, and a back link takes its id. -/
def doubledDatabase : Source.Database where
  zones := [steadySource 0, steadySource 3600000]
  goodLinks := [⟨"A", "B"⟩]
  backLinks := [⟨"B", "A"⟩]

def diskOf (files : List (String × List UInt8)) : Disk where
  entries := (["out"], .directory) :: files.map fun (name, bytes) => (["out", name], .file bytes)

def doubledSession : Session where
  outputDirectory := some "out"
  disk := diskOf []
  database := doubledDatabase

theorem diskOf_makeDirectories (files : List (String × List UInt8)) :
    (diskOf files).makeDirectories true "out".toList = { disk := diskOf files } := by
  have hsplit : (Disk.splitDirectory "out".toList).1 = [] := by decide
  rw [Disk.makeDirectories, dif_neg fun h => h.2.1 hsplit]
  rfl

structure Running (session : Session) (files : List (String × List UInt8)) : Prop where
  outputDirectory : session.outputDirectory = some "out"
  disk : session.disk = diskOf files
  database : session.database = doubledDatabase
  startYear : session.verifier.startYear = 1850
  endYear : session.verifier.endYear = 2050

theorem Running.of_proceeds {files next : List (String × List UInt8)} (h : Running before files)
    (hproceeds : before.Proceeds after) (hdisk : after.disk = diskOf next) : Running after next :=
  ⟨hproceeds.outputDirectory.trans h.outputDirectory, hdisk,
    hproceeds.database.trans h.database, hproceeds.startYear.trans h.startYear,
    hproceeds.endYear.trans h.endYear⟩

theorem Running.exists_steps {files : List (String × List UInt8)} (h : Running before files)
    (id : String) (offset : Int) (next : List (String × List UInt8)) {bytes : List UInt8}
    {created : Disk}
    (hresolves : ((steadySource offset).resolve doubledDatabase.ruleSet?).missing = none)
    (hbuilds : (Draft.ofDirectives ((steadySource offset).resolve
      doubledDatabase.ruleSet?).directives).toTimeZone id = steadyZone id offset)
    (hpasses : (({} : Verifier).verify (steadyZone id offset).queries none).verdict = .ok true)
    (hencode : (steadyZone id offset).encode = .ok bytes)
    (hparent : Path.parent (Path.join "out" id) = "out")
    (hcreate : (diskOf files).write (Path.join "out" id) [] = .ok created)
    (hfill : created.write (Path.join "out" id) bytes = .ok (diskOf next)) :
    ∃ draft resolved built verified written,
      resolve (steadySource offset) id before = .ok draft resolved ∧
      build draft id resolved = .ok (steadyZone id offset) built ∧
      verify (steadyZone id offset) built = .ok true verified ∧
      writeZone draft (steadyZone id offset) verified = .ok () written ∧ Running written next := by
  have hmake : before.disk.makeDirectories true (Path.parent (Path.join "out" id)).toList =
      { disk := diskOf files } := by
    rw [h.disk, hparent, diskOf_makeDirectories]
  rw [← h.database] at hresolves hbuilds
  rw [← Verifier.verify_verdict_congr _ _ _ h.startYear h.endYear] at hpasses
  obtain ⟨draft, resolved, built, verified, written, hresolve, hbuild, hverify, hwrite, hproceeds,
    hdisk⟩ := Compilation.exists_steps h.outputDirectory hresolves hbuilds hpasses hencode hmake
      hcreate hfill
  exact ⟨draft, resolved, built, verified, written, hresolve, hbuild, hverify, hwrite,
    h.of_proceeds hproceeds hdisk⟩

def doubledZones : List TimeZone :=
  [steadyZone "A" 0, steadyZone "A" 3600000, steadyZone "B" 3600000]

theorem doubledZones_pass : ∀ zone ∈ doubledZones,
    (({} : Verifier).verify zone.queries none).verdict = .ok true := by
  intro zone hzone
  have hview : (Verification.view? zone.queries (Instant.startOfYear 1850)).isSome := by
    fin_cases hzone <;> decide +kernel
  have hnext : zone.queries.next (Instant.startOfYear 1850) = some (Instant.startOfYear 1850) := by
    fin_cases hzone <;> decide +kernel
  obtain ⟨view, hview⟩ := Option.isSome_iff_exists.mp hview
  exact verdict_of_still hview hnext

theorem doubledZones_encode : ∀ zone ∈ doubledZones, ∃ bytes, zone.encode = .ok bytes := by
  intro zone hzone
  have hmarks : TimeZone.SingleMarks zone.tail := by
    fin_cases hzone <;> exact fun tail htail => by cases htail
  have hencodable : zone.Encodable := by
    fin_cases hzone <;> decide +kernel
  obtain ⟨bytes, hbytes, -⟩ := (zone.writes_zone hmarks).accepts hencodable
  exact ⟨bytes, hbytes⟩

def doubledNames : NameMap TimeZone :=
  [("A", steadyZone "B" 3600000), ("B", steadyZone "B" 3600000)]

theorem sortByKey_doubledNames : AliasIndex.sortByKey doubledNames = doubledNames :=
  AliasIndex.sortByKey_of_pairwise (by decide +kernel)

theorem sort_doubledNames : (AliasIndex.sort doubledNames).1 = doubledNames := by
  simp only [AliasIndex.sort, AliasIndex.sortFolded, sortByKey_doubledNames]
  rw [AliasIndex.sortByKey_of_pairwise (by decide +kernel)]
  rfl

section

variable {first second copy : List UInt8}

/-- The second declaration takes the place of the first. -/
theorem Running.compileZones (h : Running before [])
    (hfirst : (steadyZone "A" 0).encode = .ok first)
    (hsecond : (steadyZone "A" 3600000).encode = .ok second) :
    ∃ after, compileZones {} before.database.zones before =
        .ok ⟨[("A", steadyZone "A" 3600000)], [("A", steadySource 3600000)]⟩ after ∧
      Running after [("A", second)] := by
  rw [h.database]
  obtain ⟨_, _, _, _, between, hresolve, hbuild, hverify, hwrite, hbetween⟩ :=
    h.exists_steps "A" 0 [("A", first)] (by decide +kernel) (by decide +kernel)
      (doubledZones_pass _ (by simp [doubledZones])) hfirst (by decide) rfl rfl
  refine exists_bind hresolve (exists_bind hbuild (exists_bind hverify (exists_bind hwrite ?_)))
  obtain ⟨_, _, _, _, finished, hresolve, hbuild, hverify, hwrite, hfinished⟩ :=
    hbetween.exists_steps "A" 3600000 [("A", second)] (by decide +kernel) (by decide +kernel)
      (doubledZones_pass _ (by simp [doubledZones])) hsecond (by decide) rfl rfl
  exact exists_bind hresolve (exists_bind hbuild (exists_bind hverify (exists_bind hwrite
    ⟨finished, rfl, hfinished⟩)))

/-- The good link becomes a copy. -/
theorem Running.reviveLinks (h : Running before [("A", second)])
    (hcopy : (steadyZone "B" 3600000).encode = .ok copy) :
    ∃ after, reviveLinks [("A", steadySource 3600000)] [("A", steadyZone "A" 3600000)]
          before.database.goodLinks before =
        .ok [("A", steadyZone "A" 3600000), ("B", steadyZone "B" 3600000)] after ∧
      Running after [("A", second), ("B", copy)] := by
  rw [h.database]
  obtain ⟨_, _, _, _, written, hresolve, hbuild, hverify, hwrite, hwritten⟩ :=
    h.exists_steps "B" 3600000 [("A", second), ("B", copy)] (by decide +kernel)
      (by decide +kernel) (doubledZones_pass _ (by simp [doubledZones])) hcopy (by decide) rfl rfl
  obtain ⟨houtput, hdisk, hdatabase, hstart, hend⟩ := hwritten
  exact exists_bind hresolve (exists_bind hbuild (exists_bind hverify (exists_bind hwrite
    (exists_bind rfl (exists_bind rfl ⟨_, rfl, houtput, hdisk, hdatabase, hstart, hend⟩)))))

/-- The back link takes the id of the zone. -/
theorem Running.resolveLinks {files : List (String × List UInt8)} (h : Running before files) :
    ∃ after, resolveLinks [("A", steadyZone "A" 3600000), ("B", steadyZone "B" 3600000)]
          before.database.backLinks before = .ok doubledNames after ∧
      Running after files := by
  have hnames : (LinkResolution.resolve [("A", steadyZone "A" 3600000),
      ("B", steadyZone "B" 3600000)] doubledDatabase.backLinks).zones = doubledNames := by
    decide +kernel
  rw [h.database, ← hnames]
  obtain ⟨linked, hlinked⟩ : ∃ linked, Compilation.resolveLinks [("A", steadyZone "A" 3600000),
      ("B", steadyZone "B" 3600000)] doubledDatabase.backLinks before = .ok _ linked := ⟨_, rfl⟩
  have hrests := (resolveLinks_rests hlinked).2
  exact ⟨linked, hlinked, h.of_proceeds hrests.toProceeds (hrests.disk.trans h.disk)⟩

theorem Running.writeIndex (h : Running before [("A", second), ("B", copy)]) :
    ∃ after, writeIndex "out" doubledNames before = .ok () after ∧
      after.database = doubledDatabase := by
  obtain ⟨bytes, hbytes⟩ : ∃ bytes, AliasIndex.encode [("A", "B"), ("B", "B")] = .ok bytes :=
    AliasIndex.encode_of_few (by decide) (by decide)
  have hcreate : before.disk.write (Path.join "out" indexFile) [] =
      .ok (diskOf [("A", second), ("B", copy), (indexFile, [])]) := by
    rw [h.disk]
    rfl
  have hencode : AliasIndex.encode ((AliasIndex.sort doubledNames).1.map
      fun (name, zone) => (name, zone.id)) = .ok bytes := by
    rw [sort_doubledNames]
    exact hbytes
  have hfill : (diskOf [("A", second), ("B", copy), (indexFile, [])]).write
      (Path.join "out" indexFile) bytes =
        .ok (diskOf [("A", second), ("B", copy), (indexFile, bytes)]) := rfl
  exact exists_bind rfl (exists_bind (writeFile_of_ok hcreate) (exists_bind rfl (exists_bind
    (check_of_ok hencode) ⟨_, writeFile_of_ok hfill, h.database⟩)))

end

theorem exists_compile_doubled :
    ∃ final, compile [] doubledSession = .ok doubledNames final ∧
      final.database = doubledDatabase := by
  obtain ⟨first, hfirst⟩ := doubledZones_encode (steadyZone "A" 0) (by simp [doubledZones])
  obtain ⟨second, hsecond⟩ := doubledZones_encode (steadyZone "A" 3600000) (by simp [doubledZones])
  obtain ⟨copy, hcopy⟩ := doubledZones_encode (steadyZone "B" 3600000) (by simp [doubledZones])
  have hstarted : ∀ {started : Session}, Running started [] → ∃ finished,
      Compilation.compileZones {} started.database.zones started =
        .ok ⟨[("A", steadyZone "A" 3600000)], [("A", steadySource 3600000)]⟩ finished ∧
      Running finished [("A", second)] := fun h => h.compileZones hfirst hsecond
  refine exists_bind rfl (exists_bind rfl (exists_bind rfl (exists_bind rfl (exists_bind rfl
    (exists_bind_of_exists (hstarted ⟨rfl, rfl, rfl, rfl, rfl⟩) fun finished hfinished => ?_)))))
  obtain ⟨houtput, hdisk, hdatabase, hstart, hend⟩ := hfinished
  refine exists_bind rfl (exists_bind rfl (exists_bind_of_exists
    (Running.reviveLinks ⟨houtput, hdisk, hdatabase, hstart, hend⟩ hcopy)
      fun revived hrevived => ?_))
  refine exists_bind rfl (exists_bind_of_exists hrevived.resolveLinks fun linked hlinked => ?_)
  refine exists_bind_of_exists hlinked.writeIndex fun final hfinal => ?_
  exact ⟨final, by rw [sortByKey_doubledNames]; rfl, hfinal⟩

/-- What a compilation with an output directory leaves behind. Every zone of the answer has passed
verification, and its file holds it; the index holds the names of the answer with the ids of their
zones, in order; and no zone is reported not to be read back from its file. -/
theorem compile_leaves_output {sources : List String} {session final : Session} {directory : String}
    {answer : List (String × TimeZone)} (houtput : session.outputDirectory = some directory)
    (hzones : ∀ zone ∈ final.database.zones, Path.IsPlain zone.name ∧ zone.name ≠ indexFile)
    (hlinks : ∀ link ∈ final.database.goodLinks, Path.IsPlain link.name ∧ link.name ≠ indexFile)
    (h : compile sources session = .ok answer final) :
    (∀ entry ∈ answer, (session.verifier.verify entry.2.queries none).verdict = .ok true ∧
      ∃ bytes, final.disk.read (Path.join directory entry.2.id) = .ok bytes ∧
        TimeZone.decode bytes entry.2.id = .ok entry.2) ∧
    (∃ bytes, final.disk.read (Path.join directory indexFile) = .ok bytes ∧
      AliasIndex.decode bytes =
        .ok ((AliasIndex.sort answer).1.map fun (name, zone) => (name, zone.id))) ∧
    ∃ added, final.messages = session.messages ++ added ∧
      ∀ message ∈ added, ¬ message.IsReadBackError := by
  obtain ⟨started, finished, ready, revived, linked, compiled, zones, names, hgathers, hcompile,
    hready, hrevive, hresolve, hindex, rfl⟩ := compile_phases houtput h
  have hstart := hgathers.outputDirectory.trans houtput
  obtain ⟨hfinished, hcompiled⟩ := compileZones_holds hstart hcompile
  have hlinking := hfinished.trans hready.toProceeds
  obtain ⟨hrevived, hrevivedHold⟩ :=
    reviveLinks_holds (hlinking.outputDirectory.trans hstart) hrevive
  have hlinked := (resolveLinks_rests hresolve).2
  obtain ⟨hwritten, hindexed, hstays⟩ := writeIndex_eq_ok hindex
  have hrest := hrevived.trans (hlinked.toProceeds.trans hwritten)
  have hrun := hlinking.trans hrest
  rw [hrun.database] at hzones
  rw [hrest.database] at hlinks
  have hholds : ∀ entry ∈ names, Holds linked directory entry.2 := by
    refine resolveLinks_holds (fun entry hentry => (hrevivedHold ?_ ?_ entry hentry).2) hresolve
    · exact fun link hlink => ⟨(hlinks link hlink).1, (hlinks link hlink).2⟩
    · refine (hcompiled ?_ ?_).of_rests hready
      · exact fun zone hzone => ⟨(hzones zone hzone).1, (hzones zone hzone).2⟩
      · simp [HoldsAll]
  have hwhole := hgathers.trans hrun.gathers
  refine ⟨fun entry hentry => ?_, ?_, hwhole.messages⟩
  · have hlinkedEntry := hholds entry (AliasIndex.mem_sortByKey.mp hentry)
    have hfinal := hlinkedEntry.of_proceeds hwritten
      (hstays entry.2 hlinkedEntry.fileId hlinkedEntry.stored)
    refine ⟨?_, hfinal.stored⟩
    rw [← Verifier.verify_verdict_congr _ _ _ hwhole.startYear hwhole.endYear]
    exact hfinal.passes
  · rwa [AliasIndex.sort_sortByKey]

/-- The answer has the copy under both names, and so has the index. -/
theorem compile_leaves_output_doubled :
    ∃ final, compile [] doubledSession = .ok doubledNames final ∧
      (∀ zone ∈ final.database.zones, Path.IsPlain zone.name ∧ zone.name ≠ indexFile) ∧
      (∀ link ∈ final.database.goodLinks, Path.IsPlain link.name ∧ link.name ≠ indexFile) ∧
      (∃ bytes, final.disk.read "out/B" = .ok bytes ∧
        TimeZone.decode bytes "B" = .ok (steadyZone "B" 3600000)) ∧
      ∃ bytes, final.disk.read "out/ZoneInfoMap" = .ok bytes ∧
        AliasIndex.decode bytes = .ok [("A", "B"), ("B", "B")] := by
  obtain ⟨final, hrun, hdatabase⟩ := exists_compile_doubled
  have hzones : ∀ zone ∈ final.database.zones,
      Path.IsPlain zone.name ∧ zone.name ≠ indexFile := by
    rw [hdatabase]
    decide
  have hlinks : ∀ link ∈ final.database.goodLinks,
      Path.IsPlain link.name ∧ link.name ≠ indexFile := by
    rw [hdatabase]
    decide
  obtain ⟨hentries, hindex, -⟩ := compile_leaves_output rfl hzones hlinks hrun
  refine ⟨final, hrun, hzones, hlinks, (hentries ("A", steadyZone "B" 3600000) ?_).2, ?_⟩
  · simp [doubledNames]
  · rwa [sort_doubledNames] at hindex

end Compilation

end CivilTime
