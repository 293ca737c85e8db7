import CivilTime.Proofs.FilesBelow
import CivilTime.Proofs.Outcome

/-!
What a compilation leaves behind, also when it fails. Every file below its output directory can be
read as long as nothing has failed to be encoded. Between its creation and its content, which is
encoded in between, a file is empty, and that is the only time at which the directory is spoilt.
-/

namespace CivilTime

open Bytes

/-- The upper half of a small number is zero. -/
theorem Bytes.exists_low_of_encodeInt_u32 {n : Nat} (hn : n < 65536) {bytes : List UInt8}
    (h : encodeInt .u32 n = .ok bytes) : ∃ low, bytes = [0, 0] ++ low := by
  rw [encodeInt] at h
  split_ifs at h
  obtain rfl := Except.ok.inj h
  have hmod : ((n : Int) % (IntField.u32.size : Int)).toNat = n := by
    simp [IntField.size, IntField.u32]
    omega
  rw [hmod]
  refine ⟨bigEndian 2 n, ?_⟩
  have hhigh : n / Nat.pow 256 3 = 0 := Nat.div_eq_of_lt (hn.trans (by decide))
  have hnext : n / Nat.pow 256 2 = 0 := Nat.div_eq_of_lt hn
  simp only [IntField.u32, bigEndian, hhigh, hnext]
  rfl

/-- The file of a zone can be read as an index without names: where an index has the number of its
pairs, the zone has the upper half of the number of its transitions. -/
theorem AliasIndex.decode_of_zone_encode {zone : TimeZone} {bytes : List UInt8}
    (hfew : zone.transitions.size < 65536) (h : zone.encode = .ok bytes) :
    AliasIndex.decode bytes = .ok [] := by
  obtain ⟨names, hnames, h⟩ := bind_eq_ok.mp h
  obtain ⟨count, hcount, h⟩ := bind_eq_ok.mp h
  obtain ⟨transitions, -, h⟩ := bind_eq_ok.mp h
  obtain ⟨tail, -, h⟩ := bind_eq_ok.mp h
  obtain rfl := Except.ok.inj h
  obtain ⟨low, rfl⟩ := exists_low_of_encodeInt_u32 hfew hcount
  have hzero : Reads (Reader.nat 2) [0, 0] 0 := (Writes.nat .u16 rfl 0).of_ok rfl
  have hread : Reads reader (names ++ ([0, 0] ++ [])) [] :=
    ((TimeZone.writes_pool _).of_ok hnames).bind (hzero.bind (Reads.pure []))
  have hrun := hread 0 (low ++ transitions.flatten ++ tail)
  simp only [List.append_nil, List.append_assoc] at hrun ⊢
  rw [decode, Reader.runOn, Cursor.start, hrun]

namespace Compilation

variable {α β ι : Type} {before between after prepared : Session} {directory name id : String}
  {Good Bad : Disk → Prop} {disk : Disk}

/-- What a step leaves on the disk: something bad if it fails to encode, and else something good. -/
def Leaves (Good Bad : Disk → Prop) : EStateM.Result CompilationError Session α → Prop
  | .error (.encode _) after => Bad after.disk
  | .ok _ after | .error _ after => Good after.disk

theorem Leaves.of_error {error : CompilationError} (herror : ∀ reason, error ≠ .encode reason)
    (h : Good after.disk) :
    Leaves Good Bad (.error error after : EStateM.Result CompilationError Session α) := by
  cases error with
  | encode reason => exact absurd rfl (herror reason)
  | _ => exact h

theorem Leaves.bind {step : Compilation α} {next : α → Compilation β}
    (h : Leaves Good Bad (step before))
    (hnext : ∀ a between, step before = .ok a between → Good between.disk →
      Leaves Good Bad (next a between)) : Leaves Good Bad ((step >>= next) before) := by
  cases hstep : step before with
  | ok a between =>
    rw [bind_run hstep]
    rw [hstep] at h
    exact hnext a between hstep h
  | error error after =>
    rw [bind_of_error hstep]
    rw [hstep] at h
    cases error <;> exact h

theorem Leaves.imp {Good' Bad' : Disk → Prop} {result : EStateM.Result CompilationError Session α}
    (h : Leaves Good Bad result) (hgood : ∀ disk, Good disk → Good' disk)
    (hbad : ∀ disk, Bad disk → Bad' disk) : Leaves Good' Bad' result := by
  cases result with
  | ok a after => exact hgood after.disk h
  | error error after =>
    cases error with
    | encode reason => exact hbad after.disk h
    | _ => exact hgood after.disk h

theorem Leaves.get {next : Session → Compilation α} (h : Leaves Good Bad (next before before)) :
    Leaves Good Bad ((MonadState.get >>= next) before) :=
  h

theorem Leaves.set {next : PUnit → Compilation α} (h : Leaves Good Bad (next ⟨⟩ between)) :
    Leaves Good Bad ((MonadStateOf.set between >>= next) before) :=
  h

/-- A step that leaves the disk as it is and does not fail to encode. -/
def Quiet (step : Compilation α) : Prop :=
  ∀ before, match step before with
    | .ok _ after => after.disk = before.disk
    | .error error after => after.disk = before.disk ∧ ∀ reason, error ≠ .encode reason

namespace Quiet

theorem leaves {step : Compilation α} (h : Quiet step) (hgood : Good before.disk) :
    Leaves Good Bad (step before) := by
  have hstep := h before
  cases hrun : step before with
  | ok a after =>
    simp only [hrun] at hstep
    rw [← hstep] at hgood
    exact hgood
  | error error after =>
    simp only [hrun] at hstep
    rw [← hstep.1] at hgood
    exact .of_error hstep.2 hgood

theorem bind {step : Compilation α} {next : α → Compilation β} (h : Quiet step)
    (hnext : ∀ a, Quiet (next a)) : Quiet (step >>= next) := by
  intro before
  have hstep := h before
  cases hrun : step before with
  | ok a between =>
    simp only [hrun] at hstep
    rw [bind_run hrun, ← hstep]
    exact hnext a between
  | error error after =>
    simp only [hrun] at hstep
    rw [bind_of_error hrun]
    exact hstep

theorem pure (a : α) : Quiet (Pure.pure a : Compilation α) :=
  fun _ => rfl

theorem get : Quiet (MonadState.get : Compilation Session) :=
  fun _ => rfl

theorem of_modify {change : Session → Session}
    (h : ∀ session, (change session).disk = session.disk) :
    Quiet (modify change : Compilation Unit) :=
  h

theorem report (messages : List Message) : Quiet (Compilation.report messages) :=
  of_modify fun _ => rfl

theorem check {ε : Type} {wrap : ε → CompilationError}
    (hwrap : ∀ error reason, wrap error ≠ .encode reason) (result : Except ε α) :
    Quiet (Compilation.check wrap result) := by
  cases result with
  | ok a => exact pure a
  | error error => exact fun _ => ⟨rfl, hwrap error⟩

/-- A step that replaces the session by another one with the same disk. -/
theorem of_set {change : Session → Session} {next : Session → Compilation α}
    (hchange : ∀ session, (change session).disk = session.disk)
    (hnext : ∀ session, Quiet (next session)) :
    Quiet (do
      let session ← MonadState.get
      set (change session)
      next session) := by
  intro before
  have h := hnext before (change before)
  rw [hchange] at h
  exact h

theorem readSource (path : String) : Quiet (Compilation.readSource path) := by
  apply of_set
  · exact fun _ => rfl
  · intro session
    split
    · exact pure ()
    · exact fun _ => ⟨rfl, fun _ h => by cases h⟩

theorem verify (zone : TimeZone) : Quiet (Compilation.verify zone) := by
  apply of_set
  · exact fun _ => rfl
  · intro session
    apply check
    exact fun _ _ h => by cases h

theorem resolve (zone : Source.Zone) (id : String) : Quiet (Compilation.resolve zone id) := by
  refine get.bind fun session => (report _).bind fun _ => ?_
  split
  · exact pure _
  · exact (report _).bind fun _ _ => ⟨rfl, fun _ h => by cases h⟩

theorem build (draft : Draft) (id : String) : Quiet (Compilation.build draft id) :=
  (report _).bind fun _ => pure _

theorem dropLinks (messages : List Message) : Quiet (Compilation.dropLinks messages) := by
  apply bind
  · exact of_modify fun _ => rfl
  · exact fun _ => report messages

theorem resolveLinks (zones : NameMap TimeZone) (links : List Source.Link) :
    Quiet (Compilation.resolveLinks zones links) := by
  apply bind
  · exact of_modify fun _ => rfl
  · exact fun _ => (report _).bind fun _ => (dropLinks _).bind fun _ => pure _

theorem noteLink (link : Source.Link) (answer : Option TimeZone) :
    Quiet (Compilation.noteLink link answer) := by
  cases answer with
  | none => exact of_modify fun _ => rfl
  | some zone =>
    apply bind
    · exact of_modify fun _ => rfl
    · exact fun _ => report _

theorem readSources (paths : List String) : Quiet (Compilation.readSources paths) := by
  induction paths with
  | nil => exact pure ()
  | cons path rest ih => exact (readSource path).bind fun _ => ih

theorem extract (sources : List String) : Quiet (Compilation.extract sources) :=
  (report _).bind fun _ => (readSources sources).bind fun _ => get.bind fun _ => report _

end Quiet

/-- A file of the output can be read: the index as an index, any other file as the zone of its path.
-/
def isReadable (file : String × List UInt8) : Bool :=
  if file.1 = indexFile then (AliasIndex.decode file.2).isOk
  else (TimeZone.decode file.2 file.1).isOk

theorem isReadable_empty (name : String) : isReadable (name, []) = false := by
  unfold isReadable
  split <;> rfl

theorem isReadable_of_encode {zone : TimeZone} {bytes : List UInt8}
    (hfew : zone.id = indexFile → zone.transitions.size < 65536) (h : zone.encode = .ok bytes) :
    isReadable (zone.id, bytes) = true := by
  unfold isReadable
  split_ifs with hindex
  · rw [AliasIndex.decode_of_zone_encode (hfew hindex) h]
    rfl
  · rw [TimeZone.decode_of_encode h]
    rfl

theorem isReadable_index {pairs : List (String × String)} {bytes : List UInt8}
    (h : AliasIndex.encode pairs = .ok bytes) : isReadable (indexFile, bytes) = true := by
  unfold isReadable
  rw [if_pos rfl, AliasIndex.decode_of_encode h]
  rfl

def AllReadable (directory : String) (disk : Disk) : Prop :=
  disk.FilesBelow directory fun file => isReadable file = true

structure Intact (directory : String) (disk : Disk) : Prop where
  isDirectory : disk.isDirectory directory = true
  readable : AllReadable directory disk

/-- Every file below the directory can be read but one, which is empty. -/
structure Spoilt (directory : String) (name : String) (disk : Disk) : Prop where
  plain : Path.IsPlain name
  isDirectory : disk.isDirectory directory = true
  empty : (disk.placeOf directory ++ Path.components name, Entry.file []) ∈ disk.entries
  unreadable : disk.FilesBelow directory fun file => isReadable file = false ↔ file = (name, [])

/-- Creating a file spoils the directory. -/
theorem Intact.create {created : Disk} (h : Intact directory disk) (hname : Path.IsPlain name)
    (hcreate : disk.write (Path.join directory name) [] = .ok created) :
    Spoilt directory name created where
  plain := hname
  isDirectory := (Disk.Within.of_write hcreate).isDirectory h.isDirectory
  empty := Disk.mem_of_write hname hcreate
  unreadable := by
    apply h.readable.write hname hcreate
    · intro file hreadable hne
      rw [hreadable]
      simp only [Bool.true_eq_false, false_iff]
      rintro rfl
      exact hne rfl
    · simp [isReadable_empty]

/-- Filling the file with something readable mends it. -/
theorem Spoilt.fill {filled : Disk} {bytes : List UInt8} (h : Spoilt directory name disk)
    (hreadable : isReadable (name, bytes) = true)
    (hfill : disk.write (Path.join directory name) bytes = .ok filled) :
    Intact directory filled where
  isDirectory := (Disk.Within.of_write hfill).isDirectory h.isDirectory
  readable := by
    apply h.unreadable.write h.plain hfill
    · intro file hfile hne
      rw [← Bool.not_eq_false, hfile]
      rintro rfl
      exact hne rfl
    · exact hreadable

theorem Intact.makeDirectories (h : Intact directory disk) (existingAllowed : Bool)
    (path : List Char) : Intact directory (disk.makeDirectories existingAllowed path).disk where
  isDirectory :=
    (Disk.Within.of_grows (disk.makeDirectories_grows existingAllowed path)).isDirectory h.isDirectory
  readable := h.readable.makeDirectories existingAllowed path

/-- Exactly one file below the directory cannot be read. -/
theorem Spoilt.exists_files (h : Spoilt directory name disk) :
    ∃ files, disk.filesBelow? directory = some files ∧ (name, []) ∈ files ∧
      ∀ file ∈ files, isReadable file = false ↔ file = (name, []) := by
  obtain ⟨files, hfiles⟩ := Disk.filesBelow?_isSome h.isDirectory
  exact ⟨files, hfiles, Disk.mem_filesBelow?_of_mem h.plain h.empty hfiles,
    h.unreadable.forall_mem hfiles⟩

/-- Nothing is unreadable unless an encoding has failed, and then it is one file. -/
abbrev LeavesOutput (directory : String) :
    EStateM.Result CompilationError Session α → Prop :=
  Leaves (Intact directory) fun disk => ∃ name, Spoilt directory name disk

theorem makeDirectories_leaves (existingAllowed : Bool) (path : String)
    (h : Good (before.disk.makeDirectories existingAllowed path.toList).disk) :
    Leaves Good Bad (makeDirectories existingAllowed path before) := by
  apply Leaves.get
  apply Leaves.set
  cases (before.disk.makeDirectories existingAllowed path.toList).error <;> exact h

theorem writeFile_of_error {path : String} {bytes : List UInt8} {error : DiskError}
    (h : before.disk.write path bytes = .error error) :
    writeFile path bytes before = .error (.disk error) before := by
  change (check .disk (before.disk.write path bytes) >>= fun _ => _ : Compilation Unit) before = _
  rw [h]
  rfl

/-- A file that is created, and filled as soon as its content is known. -/
theorem createAndFill_leaves {content : Compilation α}
    {encode : α → Except EncodeError (List UInt8)} {next : Compilation β}
    (hgood : Intact directory before.disk) (hname : Path.IsPlain name)
    (hcontent : ∀ created : Session, ∃ a ready, content created = .ok a ready ∧
      ready.disk = created.disk ∧
        ∀ bytes, encode a = .ok bytes → isReadable (name, bytes) = true)
    (hnext : ∀ filled : Session, Intact directory filled.disk →
      LeavesOutput directory (next filled)) :
    LeavesOutput directory ((do
      writeFile (Path.join directory name) []
      let a ← content
      let bytes ← check .encode (encode a)
      writeFile (Path.join directory name) bytes
      next) before) := by
  cases hcreate : before.disk.write (Path.join directory name) [] with
  | error error =>
    rw [bind_of_error (writeFile_of_error hcreate)]
    exact hgood
  | ok created =>
    rw [bind_run (writeFile_of_ok hcreate)]
    obtain ⟨a, ready, hready, hdisk, hreadable⟩ := hcontent { before with disk := created }
    have hspoilt : Spoilt directory name ready.disk := by
      rw [hdisk]
      exact hgood.create hname hcreate
    rw [bind_run hready]
    cases hencode : encode a with
    | error error => exact ⟨name, hspoilt⟩
    | ok bytes =>
      rw [bind_run (check_of_ok rfl)]
      have hwrite : before.disk.write (Path.join directory name) [] = .ok ready.disk := by
        rw [hdisk]
        exact hcreate
      obtain ⟨filled, hfill⟩ := Disk.exists_write_again hwrite bytes
      rw [bind_run (writeFile_of_ok hfill)]
      exact hnext _ (hspoilt.fill (hreadable bytes hencode) hfill)

theorem writeZoneBelow_leaves {draft : Draft} {zone : TimeZone}
    (hzone : draft.toTimeZone zone.id = zone) (hplain : Path.IsPlain zone.id)
    (hfew : zone.id = indexFile → zone.transitions.size < 65536)
    (hgood : Intact directory before.disk) :
    LeavesOutput directory (writeZoneBelow directory draft zone before) := by
  refine .bind ((Quiet.report _).leaves hgood) fun _ _ _ hgood => ?_
  refine .bind (makeDirectories_leaves _ _ (hgood.makeDirectories _ _)) fun _ _ _ hgood => ?_
  apply createAndFill_leaves hgood hplain
  · intro created
    refine ⟨draft.toTimeZone zone.id, _, rfl, rfl, fun bytes hbytes => ?_⟩
    rw [hzone] at hbytes
    exact isReadable_of_encode hfew hbytes
  · intro filled hfilled
    apply Quiet.leaves _ hfilled
    apply Quiet.bind
    · exact Quiet.of_modify fun _ => rfl
    intro _
    refine Quiet.get.bind fun session => (Quiet.check ?_ _).bind fun stored =>
      (Quiet.check ?_ _).bind fun reread => ?_
    · exact fun _ _ h => by cases h
    · exact fun _ _ h => by cases h
    · split
      · exact .pure _
      · exact .report _

theorem writeZone_leaves {draft : Draft} {zone : TimeZone}
    (houtput : before.outputDirectory = some directory)
    (hzone : draft.toTimeZone zone.id = zone) (hplain : Path.IsPlain zone.id)
    (hfew : zone.id = indexFile → zone.transitions.size < 65536)
    (hgood : Intact directory before.disk) :
    LeavesOutput directory (writeZone draft zone before) := by
  apply Leaves.get
  rw [houtput]
  exact writeZoneBelow_leaves hzone hplain hfew hgood

theorem writeIndex_leaves (names : NameMap TimeZone) (hgood : Intact directory before.disk) :
    LeavesOutput directory (writeIndex directory names before) := by
  refine .bind ((Quiet.report _).leaves hgood) fun _ ready _ hgood => ?_
  have hplain : Path.IsPlain indexFile := by decide
  have hrun : LeavesOutput directory ((do
      writeFile (Path.join directory indexFile) []
      report (AliasIndex.sort names).2
      let bytes ← check .encode (indexOf names)
      writeFile (Path.join directory indexFile) bytes
      pure ()) ready) := by
    apply createAndFill_leaves hgood hplain
    · exact fun created => ⟨(), _, rfl, rfl, fun bytes => isReadable_index⟩
    · exact fun filled hfilled => (Quiet.pure ()).leaves hfilled
  simp only [bind_pure_unit] at hrun
  exact hrun

/-- A source can be written under an id: the id is a plain path, and should it be that of the index,
the zone can pass for one. -/
structure IsOutputId (session : Session) (source : Source.Zone) (id : String) : Prop where
  plain : Path.IsPlain id
  fewTransitions : id = indexFile → (sourceZone session source id).transitions.size < 65536

theorem IsOutputId.congr {first second : Session} (hsame : first.SameSetting second)
    {source : Source.Zone} (h : IsOutputId first source id) : IsOutputId second source id := by
  refine ⟨h.plain, ?_⟩
  rw [sourceZone_congr hsame]
  exact h.fewTransitions

theorem attempt_leaves {source : Source.Zone} (houtput : before.outputDirectory = some directory)
    (hid : IsOutputId before source id) (hgood : Intact directory before.disk) :
    LeavesOutput directory (attempt source id before) := by
  refine .bind ((Quiet.resolve _ _).leaves hgood) fun draft resolved hresolve hgood => ?_
  refine .bind ((Quiet.build _ _).leaves hgood) fun zone built hbuild hgood => ?_
  refine .bind ((Quiet.verify _).leaves hgood) fun passed verified hverify hgood => ?_
  obtain ⟨-, rfl, -⟩ := resolve_eq_ok hresolve
  obtain ⟨rfl, hrests, -⟩ := verdict_of_steps hresolve hbuild hverify
  cases passed with
  | false => exact hgood
  | true =>
    refine .bind (writeZone_leaves (hrests.outputDirectory.trans houtput) rfl hid.plain
      hid.fewTransitions hgood) fun _ _ _ hgood => ?_
    exact hgood

/-- A loop leaves what its steps leave. -/
theorem IsStep.each_leaves {step : ι → Compilation β} {Fine : Session → Disk → ι → Prop}
    {answer : Session → ι → β} (h : IsStep step Fine answer) {items : List ι}
    (hstep : ∀ item ∈ items, ∀ between, before.Proceeds between → Good between.disk →
      Leaves Good Bad (step item between))
    (hgood : Good before.disk) (add : α → ι → β → α) (collected : α) :
    Leaves Good Bad (each step add collected items before) := by
  induction items generalizing before collected with
  | nil => exact hgood
  | cons item rest ih =>
    obtain ⟨hfirst, hrest⟩ := List.forall_mem_cons.mp hstep
    refine .bind (hfirst before (.refl before) hgood) fun _ between hrun hgood => ?_
    have hproceeds := (h.sound hrun).1
    exact ih (fun other hother later hlater => hrest other hother later (hproceeds.trans hlater))
      hgood _

theorem compileZones_leaves (houtput : before.outputDirectory = some directory)
    {zones : List Source.Zone} (hids : ∀ source ∈ zones, IsOutputId before source source.name)
    (hgood : Intact directory before.disk) (compiled : Compiled) :
    LeavesOutput directory (compileZones compiled zones before) := by
  rw [compileZones_eq_each]
  apply isStep_attempt.each_leaves _ hgood
  intro source hsource between hproceeds hgood
  exact attempt_leaves (hproceeds.outputDirectory.trans houtput)
    ((hids source hsource).congr (.of_proceeds hproceeds)) hgood

theorem reviveLinks_leaves (houtput : before.outputDirectory = some directory)
    {sources : NameMap Source.Zone} {links : List Source.Link}
    (hids : ∀ link ∈ links, ∀ source, sources.find? link.target = some source →
      IsOutputId before source link.name)
    (hgood : Intact directory before.disk) (zones : NameMap TimeZone) :
    LeavesOutput directory (reviveLinks sources zones links before) := by
  rw [reviveLinks_eq_each]
  apply (isStep_reviveLink sources).each_leaves _ hgood
  intro link hlink between hproceeds hgood
  rw [reviveLink]
  cases hsource : sources.find? link.target with
  | none =>
    refine .bind ((Quiet.dropLinks _).leaves hgood) fun _ _ _ hgood => ?_
    exact hgood
  | some source =>
    refine .bind (attempt_leaves (hproceeds.outputDirectory.trans houtput)
      ((hids link hlink source hsource).congr (.of_proceeds hproceeds)) hgood)
      fun answer _ _ hgood => ?_
    refine .bind ((Quiet.noteLink link answer).leaves hgood) fun _ _ _ hgood => ?_
    exact hgood

/-- The sources of the compiled zones are zones of the database, each under its name. -/
theorem mem_zones_of_compiledOf {session : Session} {source : Source.Zone}
    (h : (compiledOf session).sources.find? name = some source) :
    source ∈ session.database.zones ∧ source.name = name := by
  rw [(find?_compiledOf session name).1] at h
  obtain ⟨hmem, hname, -⟩ := lastPassing?_eq_some h
  exact ⟨hmem, hname⟩

theorem prepareDirectory_leaves {path : String} (h : Good before.disk)
    (hmade : Good (before.disk.makeDirectories false path.toList).disk) :
    Leaves Good Bad (prepareDirectory path before) := by
  have hfinish : ∀ made : Session, Good made.disk → Leaves Good Bad
      ((do unless (← get).disk.isDirectory path do throw (.disk .notDirectory) : Compilation Unit)
        made) := by
    intro made hmade
    apply Leaves.get
    split <;> exact hmade
  apply Leaves.get
  split
  · exact hfinish before h
  · exact .bind (makeDirectories_leaves false path hmade) fun _ made _ hgood => hfinish made hgood

/-- Once the directory is there, all files in it stay readable. -/
theorem compileRead_leaves_of_prepared (houtput : before.outputDirectory = some directory)
    (hprepare : LeavesOutput directory (prepareDirectory directory before))
    (hzones : ∀ source ∈ before.database.zones, IsOutputId before source source.name)
    (hlinks : ∀ link ∈ before.database.goodLinks, ∀ source ∈ before.database.zones,
      source.name = link.target → IsOutputId before source link.name) :
    LeavesOutput directory (compileRead before) := by
  apply Leaves.get
  rw [houtput]
  refine .bind hprepare fun _ prepared hprepare hgood => ?_
  refine .bind ((Quiet.report _).leaves hgood) fun _ started hstart hgood => ?_
  have hstarted := (prepareDirectory_proceeds hprepare).trans
    (report_rests (.single (by decide) _) hstart).toProceeds
  apply Leaves.get
  refine .bind (compileZones_leaves (hstarted.outputDirectory.trans houtput) ?_ hgood _)
    fun compiled finished hcompile hgood => ?_
  · rw [hstarted.database]
    exact fun source hsource => (hzones source hsource).congr (.of_proceeds hstarted)
  refine .bind ((Quiet.report _).leaves hgood) fun _ ready hready hgood => ?_
  rw [compileZones_eq_each] at hcompile
  obtain ⟨hfinished, -, -, hcompiled⟩ := isStep_attempt.each_sound hcompile
  have hlinking := hstarted.trans (hfinished.trans
    (report_rests (.single (by decide) _) hready).toProceeds)
  obtain rfl : compiled = compiledOf before := hcompiled.trans (compiledOf_congr hstarted)
  apply Leaves.get
  refine .bind (reviveLinks_leaves (hlinking.outputDirectory.trans houtput) ?_ hgood _)
    fun zones revived _ hgood => ?_
  · rw [hlinking.database]
    intro link hlink source hsource
    obtain ⟨hmem, hname⟩ := mem_zones_of_compiledOf hsource
    exact (hlinks link hlink source hmem hname).congr (.of_proceeds hlinking)
  apply Leaves.get
  refine .bind ((Quiet.resolveLinks _ _).leaves hgood) fun names linked _ hgood => ?_
  refine .bind (writeIndex_leaves names hgood) fun _ _ _ hgood => ?_
  exact hgood

theorem compileRead_leaves (houtput : before.outputDirectory = some directory)
    (hfiles : AllReadable directory before.disk)
    (hzones : ∀ source ∈ before.database.zones, IsOutputId before source source.name)
    (hlinks : ∀ link ∈ before.database.goodLinks, ∀ source ∈ before.database.zones,
      source.name = link.target → IsOutputId before source link.name) :
    Leaves (AllReadable directory) (fun disk => ∃ name, Spoilt directory name disk)
      (compileRead before) := by
  have hprepare : Leaves (AllReadable directory) (fun disk => ∃ name, Spoilt directory name disk)
      (prepareDirectory directory before) :=
    prepareDirectory_leaves hfiles (hfiles.makeDirectories false directory.toList)
  cases hprepared : prepareDirectory directory before with
  | error error after =>
    rw [hprepared] at hprepare
    have hrun : compileRead before = .error error after := by
      refine (bind_run rfl).trans ?_
      rw [houtput]
      exact bind_of_error hprepared _
    rw [hrun]
    cases error <;> exact hprepare
  | ok u prepared =>
    rw [hprepared] at hprepare
    have hdirectory : prepared.disk.isDirectory directory = true := by
      obtain ⟨disk, -, hdirectory, rfl⟩ := prepareDirectory_eq_ok_iff.mp hprepared
      exact hdirectory
    have hintact : LeavesOutput directory (prepareDirectory directory before) := by
      rw [hprepared]
      exact ⟨hdirectory, hprepare⟩
    apply (compileRead_leaves_of_prepared houtput hintact hzones hlinks).imp
    · exact fun disk hgood => hgood.readable
    · exact fun disk hbad => hbad

def outcome (step : Compilation α) (session : Session) : Option CompilationError × Session :=
  match step session with
  | .ok _ after => (none, after)
  | .error error after => (some error, after)

theorem Leaves.of_outcome {step : Compilation α} (h : Leaves Good Bad (step before))
    {error? : Option CompilationError} (houtcome : outcome step before = (error?, after)) :
    ((∀ reason, error? ≠ some (.encode reason)) → Good after.disk) ∧
      ∀ reason, error? = some (.encode reason) → Bad after.disk := by
  rw [outcome] at houtcome
  cases hrun : step before with
  | ok a final =>
    rw [hrun] at h houtcome
    cases houtcome
    exact ⟨fun _ => h, fun _ herror => by cases herror⟩
  | error error final =>
    rw [hrun] at h houtcome
    cases houtcome
    cases error with
    | encode reason => exact ⟨fun hother => absurd rfl (hother reason), fun _ _ => h⟩
    | _ => exact ⟨fun _ => h, fun _ herror => by cases herror⟩

def gathered (sources : List String) (session : Session) : Session :=
  (outcome (extract sources) session).2

theorem compile_leaves {sources : List String} {session : Session}
    (houtput : session.outputDirectory = some directory)
    (hfiles : AllReadable directory session.disk)
    (hzones : ∀ source ∈ (gathered sources session).database.zones,
      IsOutputId (gathered sources session) source source.name)
    (hlinks : ∀ link ∈ (gathered sources session).database.goodLinks,
      ∀ source ∈ (gathered sources session).database.zones, source.name = link.target →
        IsOutputId (gathered sources session) source link.name) :
    Leaves (AllReadable directory) (fun disk => ∃ name, Spoilt directory name disk)
      (compile sources session) := by
  rw [compile_eq]
  refine .bind ((Quiet.extract sources).leaves hfiles) fun _ started hextract hfiles => ?_
  have hstarted : gathered sources session = started := by
    rw [gathered, outcome, hextract]
  rw [hstarted] at hzones hlinks
  exact compileRead_leaves ((extract_gathers hextract).outputDirectory.trans houtput) hfiles hzones
    hlinks

end Compilation

end CivilTime
