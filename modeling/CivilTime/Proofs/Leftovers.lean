import CivilTime.Proofs.FailedRun

/-!
A zone or an index that cannot be encoded ends a compilation and leaves its file empty, since the
file is created before its content is known. That is all the damage there can be: every other file
can be read, however the compilation ends.
-/

namespace CivilTime

open Bytes

theorem Text.lower_replicate (n : Nat) :
    Text.lower (String.ofList (List.replicate n 'b')) = String.ofList (List.replicate n 'b') := by
  have honto : ∀ done before : List Char, Text.lowerOnto done before (List.replicate n 'b') =
      done.reverse ++ List.replicate n 'b' := by
    induction n with
    | zero => simp [Text.lowerOnto]
    | succ n ih =>
      intro done before
      have hletter : ∀ after, Text.lowerAt before 'b' after = ['b'] := by
        intro after
        have : Text.smallLetter 'b' = 'b' := by decide +kernel
        simp [Text.lowerAt, this]
      rw [List.replicate_succ, Text.lowerOnto, hletter, ih]
      simp
  rw [Text.lower, String.toList_ofList, honto]
  rfl

/-- Two entries whose folded ids are in order stay as they are. -/
theorem AliasIndex.sort_pair {α : Type} {first second : String × α} (h : ¬ second.1 < first.1)
    (hfolded : ¬ Text.lower second.1 < Text.lower first.1)
    (hne : Text.lower first.1 ≠ Text.lower second.1) :
    (sort [first, second]).1 = [first, second] := by
  have hsorted : sortByKey [first, second] = [first, second] := by
    apply sortByKey_of_pairwise
    rw [List.pairwise_pair, decide_eq_false h]
    rfl
  have hgroups : (collapseAll Text.lower [] [first, second]).1 =
      [⟨Text.lower first.1, first.1, first.2⟩, ⟨Text.lower second.1, second.1, second.2⟩] := by
    simp [collapseAll, collapse, hne]
  rw [sort, sortFolded, hsorted]
  simp only [hgroups, List.map_cons, List.map_nil]
  rw [sortByKey_of_pairwise]
  · rfl
  · rw [List.pairwise_pair, decide_eq_false hfolded]
    rfl

namespace Compilation

variable {α β : Type} {before between : Session} {directory id : String}

theorem exists_fails {step : Compilation α} {next : α → Compilation β} {a : α}
    {error : CompilationError} {P : Session → Prop} (h : step before = .ok a between)
    (hnext : ∃ after, next a between = .error error after ∧ P after) :
    ∃ after, (step >>= next) before = .error error after ∧ P after := by
  rwa [bind_run h]

theorem check_of_error {ε : Type} {wrap : ε → CompilationError} {result : Except ε α} {error : ε}
    (h : result = .error error) : check wrap result before = .error (wrap error) before := by
  rw [h]
  rfl

/-- A zone that passes but cannot be encoded ends the run with its file empty. -/
theorem exists_attempt_unencodable {source : Source.Zone} {reason : EncodeError}
    {made created : Disk} (houtput : before.outputDirectory = some directory)
    (hmissing : (source.resolve before.database.ruleSet?).missing = none)
    (hverdict : verdict before source id = .ok true)
    (hencode : (sourceZone before source id).encode = .error reason)
    (hmake : before.disk.makeDirectories true (Path.parent (Path.join directory id)).toList =
      { disk := made })
    (hcreate : made.write (Path.join directory id) [] = .ok created) :
    ∃ after, attempt source id before = .error (.encode reason) after ∧ after.disk = created := by
  obtain ⟨resolved, built, verified, hresolve, hbuild, hverify, hrests⟩ :=
    exists_verified hmissing rfl hverdict
  have houtput := hrests.outputDirectory.trans houtput
  rw [← hrests.disk] at hmake
  refine exists_fails hresolve (exists_fails hbuild (exists_fails hverify ?_))
  obtain ⟨after, hwrite, hdisk⟩ : ∃ after, writeZone
      (.ofDirectives (source.resolve before.database.ruleSet?).directives)
      (sourceZone before source id) verified = .error (.encode reason) after ∧
        after.disk = created := by
    refine exists_fails rfl ?_
    simp only [houtput]
    refine exists_fails rfl (exists_fails (makeDirectories_of_ok hmake) (exists_fails
      (writeFile_of_ok hcreate) (exists_fails rfl ?_)))
    refine ⟨_, bind_of_error (check_of_error hencode) _, rfl⟩
  exact ⟨after, bind_of_error hwrite _, hdisk⟩

def emptySession (database : Source.Database) : Session where
  outputDirectory := some "out"
  disk := diskOf []
  database := database

theorem filesBelow?_emptySession (database : Source.Database) :
    (emptySession database).disk.filesBelow? "out" = some [] := by
  rw [Disk.filesBelow?, Disk.locate_of_isDirectory rfl]
  simp [emptySession, diskOf]

def farSource : Source.Zone :=
  { steadySource 3600000000 with name := "B" }

section

variable (hsame : (emptySession {}).SameSetting before)

include hsame

theorem sourceZone_steady : sourceZone before (steadySource 0) "A" = steadyZone "A" 0 := by
  rw [sourceZone_congr hsame]
  decide +kernel

theorem verdict_steady : verdict before (steadySource 0) "A" = .ok true := by
  rw [verdict, sourceZone_steady hsame]
  exact (Verifier.verify_verdict_congr _ _ _ hsame.startYear hsame.endYear).trans
    (doubledZones_pass (steadyZone "A" 0) (by simp [doubledZones]))

theorem steady_resolves : ((steadySource 0).resolve before.database.ruleSet?).missing = none := by
  rw [hsame.ruleSet]
  decide +kernel

theorem far_resolves : (farSource.resolve before.database.ruleSet?).missing = none := by
  rw [hsame.ruleSet]
  decide +kernel

theorem sourceZone_far : sourceZone before farSource "B" = steadyZone "B" 3600000000 := by
  rw [sourceZone_congr hsame]
  decide +kernel

theorem verdict_far : verdict before farSource "B" = .ok true := by
  have hview : (Verification.view? (steadyZone "B" 3600000000).queries
      (Instant.startOfYear 1850)).isSome := by
    decide +kernel
  obtain ⟨view, hview⟩ := Option.isSome_iff_exists.mp hview
  rw [verdict, sourceZone_far hsame,
    Verifier.verify_verdict_congr _ _ _ hsame.startYear hsame.endYear]
  exact verdict_of_still hview (by decide +kernel)

theorem exists_encode_far : ∃ reason, (sourceZone before farSource "B").encode = .error reason := by
  have hmarks : TimeZone.SingleMarks (steadyZone "B" 3600000000).tail :=
    fun tail htail => by cases htail
  have hunfit : ¬ (steadyZone "B" 3600000000).Encodable := by decide +kernel
  obtain ⟨reason, hreason, -⟩ := ((steadyZone "B" 3600000000).writes_zone hmarks).refuses hunfit
  rw [sourceZone_far hsame]
  exact ⟨reason, hreason⟩

theorem exists_attempt_steady {bytes : List UInt8} (hdisk : before.disk = diskOf [])
    (hbytes : (steadyZone "A" 0).encode = .ok bytes) :
    ∃ between, attempt (steadySource 0) "A" before = .ok (some (steadyZone "A" 0)) between ∧
      before.Proceeds between ∧ between.disk = diskOf [("A", bytes)] := by
  have hpasses : (before.verifier.verify (steadyZone "A" 0).queries none).verdict = .ok true := by
    rw [← sourceZone_steady hsame]
    exact verdict_steady hsame
  have hmake : before.disk.makeDirectories true (Path.parent (Path.join "out" "A")).toList =
      { disk := diskOf [] } := by
    rw [hdisk]
    exact diskOf_makeDirectories []
  have hcreate : (diskOf []).write (Path.join "out" "A") [] = .ok (diskOf [("A", [])]) := rfl
  have hfill : (diskOf [("A", [])]).write (Path.join "out" "A") bytes =
      .ok (diskOf [("A", bytes)]) := rfl
  obtain ⟨draft, resolved, built, verified, between, hresolve, hbuild, hverify, hwrite, hproceeds,
    hbetween⟩ := exists_steps hsame.outputDirectory (steady_resolves hsame)
      (sourceZone_steady hsame) hpasses hbytes hmake hcreate hfill
  exact ⟨between, bind_of_ok hresolve (bind_of_ok hbuild (bind_of_ok hverify
    (bind_of_ok hwrite rfl))), hproceeds, hbetween⟩

/-- The first zone has been written when the second one fails. -/
theorem exists_compileZones_far (hdisk : before.disk = diskOf []) :
    ∃ reason bytes after, compileZones {} [steadySource 0, farSource] before =
        .error (.encode reason) after ∧ after.disk = diskOf [("A", bytes), ("B", [])] ∧
      (steadyZone "A" 0).encode = .ok bytes := by
  obtain ⟨bytes, hbytes⟩ := doubledZones_encode (steadyZone "A" 0) (by simp [doubledZones])
  obtain ⟨between, hattempt, hproceeds, hbetween⟩ := exists_attempt_steady hsame hdisk hbytes
  have hlater := hsame.trans (.of_proceeds hproceeds)
  obtain ⟨reason, hreason⟩ := exists_encode_far hlater
  have hmake : between.disk.makeDirectories true (Path.parent (Path.join "out" "B")).toList =
      { disk := diskOf [("A", bytes)] } := by
    rw [hbetween]
    exact diskOf_makeDirectories _
  have hcreate : (diskOf [("A", bytes)]).write (Path.join "out" "B") [] =
      .ok (diskOf [("A", bytes), ("B", [])]) := rfl
  obtain ⟨after, hfails, hafter⟩ := exists_attempt_unencodable hlater.outputDirectory
    (far_resolves hlater) (verdict_far hlater) hreason hmake hcreate
  refine ⟨reason, bytes, ?_⟩
  rw [compileZones_cons]
  apply exists_fails hattempt
  rw [compileZones_cons]
  exact ⟨after, bind_of_error hfails _, hafter, hbytes⟩

end

/-- Reading no sources changes nothing that counts. -/
theorem exists_extract_empty {database : Source.Database} (hrules : database.ruleSets = []) :
    ∃ started, extract [] (emptySession database) = .ok () started ∧
      started.disk = diskOf [] ∧ started.database = database ∧
      (emptySession {}).SameSetting started := by
  refine ⟨_, rfl, rfl, rfl, rfl, ?_, rfl, rfl⟩
  funext name
  simp only [Source.Database.ruleSet?, emptySession, hrules]

theorem prepareOutput_empty (houtput : before.outputDirectory = some "out")
    (hdisk : before.disk = diskOf []) :
    prepareOutput before.outputDirectory before = .ok () before := by
  rw [houtput]
  refine prepareDirectory_eq_ok_iff.mpr ⟨before.disk, ?_, ?_, rfl⟩
  · rw [hdisk]
    exact if_pos rfl
  · rw [hdisk]
    rfl

/-- The second of two zones does not fit. -/
def farSession : Session :=
  emptySession { zones := [steadySource 0, farSource] }

theorem exists_compile_far : ∃ reason bytes after,
    compile [] farSession = .error (.encode reason) after ∧
      after.disk = diskOf [("A", bytes), ("B", [])] ∧ (steadyZone "A" 0).encode = .ok bytes := by
  obtain ⟨started, hextract, hdisk, hdatabase, hsame⟩ : ∃ started,
      extract [] farSession = .ok () started ∧ _ :=
    exists_extract_empty rfl
  obtain ⟨ready, hready, hrests⟩ : ∃ ready,
      report [.info "======== Compiling zones"] started = .ok () ready ∧ started.Rests ready :=
    ⟨_, rfl, report_rests (.single (by decide) _) rfl⟩
  obtain ⟨reason, bytes, after, hfails, hafter⟩ := exists_compileZones_far
    (hsame.trans (.of_proceeds hrests.toProceeds)) (hrests.disk.trans hdisk)
  refine ⟨reason, bytes, ?_⟩
  rw [compile_eq]
  refine exists_fails hextract (exists_fails rfl (exists_fails
    (prepareOutput_empty hsame.outputDirectory hdisk) (exists_fails hready (exists_fails rfl ?_))))
  rw [hrests.database, hdatabase]
  exact ⟨after, bind_of_error hfails _, hafter⟩

/-- An index that cannot be encoded ends the run with its file empty. -/
theorem exists_writeIndex_unencodable {names : NameMap TimeZone} {reason : EncodeError}
    {created : Disk} (hencode : indexOf names = .error reason)
    (hcreate : before.disk.write (Path.join directory indexFile) [] = .ok created) :
    ∃ after, writeIndex directory names before = .error (.encode reason) after ∧
      after.disk = created := by
  refine exists_fails rfl (exists_fails (writeFile_of_ok hcreate) (exists_fails rfl ?_))
  exact ⟨_, bind_of_error (check_of_error hencode) _, rfl⟩

def aliasOf (n : Nat) : String :=
  String.ofList (List.replicate (n + 1) 'b')

theorem not_aliasOf_lt (n : Nat) {c : Char} (hc : c < 'b') : ¬ aliasOf n < String.ofList [c] := by
  apply String.lt_asymm
  rw [String.lt_iff, aliasOf, String.toList_ofList, String.toList_ofList, List.replicate_succ]
  exact List.Lex.rel hc

theorem aliasOf_ne (n : Nat) {c : Char} (hc : c ≠ 'b') : String.ofList [c] ≠ aliasOf n := by
  intro heq
  have hlist := congrArg String.toList heq
  rw [aliasOf, String.toList_ofList, String.toList_ofList, List.replicate_succ] at hlist
  exact hc (List.cons.inj hlist).1

theorem sort_aliasOf (n : Nat) (zone : TimeZone) :
    (AliasIndex.sort [("A", zone), (aliasOf n, zone)]).1 = [("A", zone), (aliasOf n, zone)] := by
  have hfirst : Text.lower "A" = "a" := by decide +kernel
  have hsecond : Text.lower (aliasOf n) = aliasOf n := Text.lower_replicate (n + 1)
  apply AliasIndex.sort_pair
  · exact not_aliasOf_lt n (by decide)
  · rw [hfirst, hsecond]
    exact not_aliasOf_lt n (by decide)
  · rw [hfirst, hsecond]
    exact aliasOf_ne n (by decide)

theorem utf8ByteSize_aliasOf (n : Nat) : (aliasOf n).utf8ByteSize = n + 1 := by
  have hsize : ∀ count, (String.ofList (List.replicate count 'b')).utf8ByteSize = count := by
    intro count
    induction count with
    | zero => rfl
    | succ count ih =>
      rw [List.replicate_succ, String.ofList_cons, String.utf8ByteSize_append, ih,
        String.utf8ByteSize_singleton]
      exact Nat.add_comm 1 count
  exact hsize (n + 1)

/-- An index with a name that does not fit its field cannot be encoded. -/
theorem exists_indexOf_aliasOf {n : Nat} (hn : 65535 ≤ n) (zone : TimeZone) (hid : zone.id = "A") :
    ∃ reason, indexOf [("A", zone), (aliasOf n, zone)] = .error reason := by
  rw [indexOf, sort_aliasOf]
  simp only [List.map_cons, List.map_nil, hid]
  have hlength : (AliasIndex.names [("A", "A"), (aliasOf n, "A")]).length = 4 := rfl
  have hcard := List.toFinset_card_le (AliasIndex.names [("A", "A"), (aliasOf n, "A")])
  have hwrites : Writes (AliasIndex.encode [("A", "A"), (aliasOf n, "A")]) _ _ :=
    AliasIndex.writes_index (hcard.trans (by rw [hlength]; decide)) (Nat.le_of_ble_eq_true rfl)
  obtain ⟨reason, hreason, -⟩ := hwrites.refuses fun hshort => by
    have hsize := hshort (aliasOf n) (by simp [AliasIndex.names])
    rw [utf8ByteSize_aliasOf] at hsize
    omega
  exact ⟨reason, hreason⟩

def aliasSession (n : Nat) : Session :=
  emptySession { zones := [steadySource 0], backLinks := [⟨"A", aliasOf n⟩] }

theorem namesOf_alias {n : Nat} (hsame : (emptySession {}).SameSetting before)
    (hdatabase : before.database = (aliasSession n).database) :
    namesOf before = [("A", steadyZone "A" 0), (aliasOf n, steadyZone "A" 0)] := by
  have hpassing : passing? before (steadySource 0) "A" = some (steadyZone "A" 0) := by
    rw [passing?, verdict_steady hsame, sourceZone_steady hsame]
  have hzones : zonesOf before = [("A", steadyZone "A" 0)] := by
    simp only [zonesOf, compiledOf, hdatabase, aliasSession, emptySession, List.foldl_cons,
      List.foldl_nil]
    change (Compiled.add {} (steadySource 0) (passing? before (steadySource 0) "A")).zones = _
    rw [hpassing]
    rfl
  have hne : "A" ≠ aliasOf n := aliasOf_ne n (by decide)
  have hpass : LinkResolution.pass [("A", steadyZone "A" 0)] [⟨"A", aliasOf n⟩] =
      { zones := [("A", steadyZone "A" 0), (aliasOf n, steadyZone "A" 0)]
        resolved := 1
        messages := [.debug ("Back link: " ++ aliasOf n ++ " -> " ++ "A")] } := by
    simp [LinkResolution.pass, NameMap.find?, NameMap.insert, hne, steadyZone]
  rw [namesOf, hzones, hdatabase, aliasSession, emptySession, LinkResolution.resolve, hpass]
  rw [dif_neg (by simp)]
  change (LinkResolution.resolve
    [("A", steadyZone "A" 0), (aliasOf n, steadyZone "A" 0)] []).zones = _
  rw [LinkResolution.resolve]
  simp [LinkResolution.pass]

theorem succeeds_steady (hsame : (emptySession {}).SameSetting before) {whole : Disk}
    (hfile : whole.HasFile (Path.join "out" "A")) :
    Succeeds before whole (steadySource 0) "A" := by
  refine ⟨steady_resolves hsame, ⟨true, verdict_steady hsame⟩, ?_⟩
  intro _ directory hdirectory
  rw [hsame.outputDirectory] at hdirectory
  cases hdirectory
  rw [sourceZone_steady hsame]
  exact ⟨doubledZones_encode (steadyZone "A" 0) (by simp [doubledZones]), by decide, hfile⟩

/-- Everything has been written but the index. -/
theorem exists_compile_alias {n : Nat} (hn : 65535 ≤ n) : ∃ reason after files,
    compile [] (aliasSession n) = .error (.encode reason) after ∧
      after.disk.filesBelow? "out" = some files ∧ (indexFile, []) ∈ files := by
  obtain ⟨started, hextract, hdisk, hdatabase, hsame⟩ : ∃ started,
      extract [] (aliasSession n) = .ok () started ∧ _ :=
    exists_extract_empty rfl
  have hwithin : started.disk.Within (diskOf [("A", []), (indexFile, [])]) := by
    rw [hdisk]
    have hzone : (diskOf []).write (Path.join "out" "A") [] = .ok (diskOf [("A", [])]) := rfl
    have hindex : (diskOf [("A", [])]).write (Path.join "out" indexFile) [] =
      .ok (diskOf [("A", []), (indexFile, [])]) := rfl
    exact (Disk.Within.of_write hzone).trans (.of_write hindex)
  have hzones : ∀ source ∈ started.database.zones,
      Succeeds started (diskOf [("A", []), (indexFile, [])]) source source.name := by
    rw [hdatabase]
    intro source hsource
    obtain rfl := List.mem_singleton.mp hsource
    exact succeeds_steady hsame ⟨[], rfl⟩
  have hlinks : started.database.goodLinks = [] :=
    congrArg Source.Database.goodLinks hdatabase
  obtain ⟨linked, hlinked, hdirectory, hrun⟩ := compileRead_eq_indexOutput
    (prepareOutput_empty hsame.outputDirectory hdisk) hwithin hzones
    (by rw [hlinks]; exact List.forall_mem_nil _)
  have hout := hdirectory "out" hsame.outputDirectory
  obtain ⟨created, -, hcreate, -⟩ := exists_write_index hlinked hout ⟨[], rfl⟩ []
  obtain ⟨files, hfiles, hmem⟩ := Disk.exists_files_of_write hout (by decide) hcreate
  obtain ⟨reason, hreason⟩ := exists_indexOf_aliasOf hn (steadyZone "A" 0) rfl
  rw [← namesOf_alias hsame hdatabase] at hreason
  obtain ⟨after, hindex, rfl⟩ := exists_writeIndex_unencodable hreason hcreate
  refine ⟨reason, after, files, ?_, hfiles, hmem⟩
  rw [compile_eq, bind_run hextract, hrun, hsame.outputDirectory]
  exact bind_of_error hindex _

/-- What a compilation leaves in its output directory, whether it answers or fails, if there is
nothing to begin with but files that can be read. Unless something could not be encoded, every file
can be read. If a zone or the index could not be encoded, one file is empty, and it is the only one
that cannot be read. -/
theorem compile_leaves_readable_files {sources : List String} {session final : Session}
    {directory : String} {error? : Option CompilationError}
    (houtput : session.outputDirectory = some directory)
    (hfiles : AllReadable directory session.disk)
    (hzones : ∀ source ∈ (gathered sources session).database.zones,
      IsOutputId (gathered sources session) source source.name)
    (hlinks : ∀ link ∈ (gathered sources session).database.goodLinks,
      ∀ source ∈ (gathered sources session).database.zones, source.name = link.target →
        IsOutputId (gathered sources session) source link.name)
    (h : outcome (compile sources) session = (error?, final)) :
    ((∀ reason, error? ≠ some (.encode reason)) →
      ∀ files, final.disk.filesBelow? directory = some files →
        ∀ file ∈ files, isReadable file = true) ∧
    ∀ reason, error? = some (.encode reason) →
      ∃ files name, final.disk.filesBelow? directory = some files ∧ (name, []) ∈ files ∧
        ∀ file ∈ files, isReadable file = false ↔ file = (name, []) := by
  obtain ⟨hreadable, hspoilt⟩ := (compile_leaves houtput hfiles hzones hlinks).of_outcome h
  constructor
  · intro hother files hfiles
    exact (hreadable hother).forall_mem hfiles
  · intro reason hreason
    obtain ⟨name, hname⟩ := hspoilt reason hreason
    obtain ⟨files, hfiles, hmem, hunreadable⟩ := hname.exists_files
    exact ⟨files, name, hfiles, hmem, hunreadable⟩

/-- The second of two zones cannot be encoded: its file is empty, and that of the first one is not.
-/
theorem compile_leaves_readable_files_far :
    ∃ reason final, outcome (compile []) farSession = (some (.encode reason), final) ∧
      ∃ files name, final.disk.filesBelow? "out" = some files ∧ (name, []) ∈ files ∧
        (∀ file ∈ files, isReadable file = false ↔ file = (name, [])) ∧
        ∃ bytes, ("A", bytes) ∈ files ∧ isReadable ("A", bytes) = true := by
  obtain ⟨reason, bytes, final, hrun, hdisk, hbytes⟩ := exists_compile_far
  have houtcome : outcome (compile []) farSession = (some (.encode reason), final) := by
    rw [outcome, hrun]
  have hempty : AllReadable "out" farSession.disk := by
    intro place stored hmem
    simp [farSession, emptySession, diskOf] at hmem
  have hids : ∀ source ∈ [steadySource 0, farSource],
      Path.IsPlain source.name ∧ source.name ≠ indexFile := by
    decide
  have hzones : ∀ source ∈ (gathered [] farSession).database.zones,
      IsOutputId (gathered [] farSession) source source.name := fun source hsource =>
    ⟨(hids source hsource).1, fun hindex => absurd hindex (hids source hsource).2⟩
  obtain ⟨files, name, hfiles, hname, hunreadable⟩ :=
    (compile_leaves_readable_files rfl hempty hzones (List.forall_mem_nil _) houtcome).2 reason rfl
  have hfirst : ("A", bytes) ∈ files := by
    refine Disk.mem_filesBelow?_of_mem (by decide) ?_ hfiles
    rw [hdisk]
    exact List.mem_cons_of_mem _ List.mem_cons_self
  exact ⟨reason, final, houtcome, files, name, hfiles, hname, hunreadable, bytes, hfirst,
    isReadable_of_encode (fun hindex => absurd hindex (by decide)) hbytes⟩

/-- A failure leaves a file behind that cannot be read: the file of a zone whose offset does not fit
its field, or the index if one of its names is too long. -/
theorem compile_leaves_unreadable_file :
    (∃ reason final files, farSession.disk.filesBelow? "out" = some [] ∧
      compile [] farSession = .error (.encode reason) final ∧
      final.disk.filesBelow? "out" = some files ∧ ("B", []) ∈ files ∧
      isReadable ("B", []) = false) ∧
    ∃ reason final files, (aliasSession 65535).disk.filesBelow? "out" = some [] ∧
      compile [] (aliasSession 65535) = .error (.encode reason) final ∧
      final.disk.filesBelow? "out" = some files ∧ (indexFile, []) ∈ files ∧
      isReadable (indexFile, []) = false := by
  constructor
  · obtain ⟨reason, bytes, final, hrun, hdisk, -⟩ := exists_compile_far
    have hcreate : (diskOf [("A", bytes)]).write (Path.join "out" "B") [] = .ok final.disk := by
      rw [hdisk]
      rfl
    obtain ⟨files, hfiles, hmem⟩ := Disk.exists_files_of_write rfl (by decide) hcreate
    exact ⟨reason, final, files, filesBelow?_emptySession _, hrun, hfiles, hmem,
      isReadable_empty "B"⟩
  · obtain ⟨reason, final, files, hrun, hfiles, hmem⟩ := exists_compile_alias (le_refl 65535)
    exact ⟨reason, final, files, filesBelow?_emptySession _, hrun, hfiles, hmem,
      isReadable_empty indexFile⟩

end Compilation

end CivilTime
