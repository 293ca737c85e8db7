import CivilTime.Proofs.Outcome
import CivilTime.Proofs.Reading

/-!
The order of the source files makes no difference to a compilation, as long as no rule set and no
name comes from two of them. What is read is the same up to the order of zones and links, every zone
and link succeeds or fails by itself, and all names are sorted in the end.
-/

namespace CivilTime

/-- The same has been read in two sessions with the same settings, zones and links in any order. -/
structure Session.Alike (first second : Session) : Prop where
  outputDirectory : second.outputDirectory = first.outputDirectory
  startYear : second.verifier.startYear = first.verifier.startYear
  endYear : second.verifier.endYear = first.verifier.endYear
  database : first.database.Alike second.database

theorem Session.Alike.sameSetting {first second : Session} (h : first.Alike second) :
    first.SameSetting second :=
  ⟨h.outputDirectory, h.database.ruleSet.symm, h.startYear, h.endYear⟩

namespace Compilation

open Source (Database Link)

theorem foldl_add_zones (answer : Source.Zone → Option TimeZone) (zones : List Source.Zone)
    (compiled : Compiled) :
    (zones.foldl (fun compiled source => compiled.add source (answer source)) compiled).zones =
      zones.foldl (fun map source => map.insert? source.name (answer source)) compiled.zones := by
  induction zones generalizing compiled with
  | nil => rfl
  | cons source rest ih =>
    rw [List.foldl_cons, List.foldl_cons, ih]
    congr 1
    cases answer source with
    | none => rfl
    | some zone => rfl

theorem foldl_add_sources (answer : Source.Zone → Option TimeZone) (zones : List Source.Zone)
    (compiled : Compiled) :
    (zones.foldl (fun compiled source => compiled.add source (answer source)) compiled).sources =
      zones.foldl (fun map source => map.insert? source.name ((answer source).map fun _ => source))
        compiled.sources := by
  induction zones generalizing compiled with
  | nil => rfl
  | cons source rest ih =>
    rw [List.foldl_cons, List.foldl_cons, ih]
    congr 1
    cases answer source with
    | none => rfl
    | some zone => rfl

section

variable {first second : Session} (h : first.Alike second)
  (hnames : first.database.names.Nodup)

include h hnames

theorem compiledOf_zones_alike (name : String) :
    (compiledOf first).zones.find? name = (compiledOf second).zones.find? name := by
  rw [compiledOf, foldl_add_zones, compiledOf, foldl_add_zones]
  apply NameMap.find?_foldl_perm (Database.nodup_of_names hnames).1 h.database.zones
  · intro source
    exact (passing?_congr h.sameSetting source source.name).symm
  · intro name
    rfl

theorem compiledOf_sources_alike (name : String) :
    (compiledOf first).sources.find? name = (compiledOf second).sources.find? name := by
  rw [compiledOf, foldl_add_sources, compiledOf, foldl_add_sources]
  apply NameMap.find?_foldl_perm (Database.nodup_of_names hnames).1 h.database.zones
  · intro source
    rw [passing?_congr h.sameSetting]
  · intro name
    rfl

theorem zonesOf_alike (name : String) :
    (zonesOf first).find? name = (zonesOf second).find? name := by
  unfold zonesOf
  apply NameMap.find?_foldl_perm (Database.nodup_of_names hnames).2.1 h.database.goodLinks
  · intro link
    unfold revived?
    rw [compiledOf_sources_alike h hnames]
    congr 1
    funext source
    exact (passing?_congr h.sameSetting source link.name).symm
  · exact compiledOf_zones_alike h hnames

omit h in
/-- Back links take no name of a zone or of a good link. -/
theorem namedOnce_backLinks :
    LinkResolution.NamedOnce (zonesOf first) first.database.backLinks := by
  obtain ⟨hzones, hgood, hback, hapart⟩ := Database.nodup_of_names hnames
  refine ⟨hback, fun link hlink hkey => ?_⟩
  obtain ⟨hzone, hother⟩ := hapart link hlink
  rcases NameMap.keys_foldl_insert? hgood hkey with hmem | hkey
  · exact hother hmem
  · rw [compiledOf, foldl_add_zones] at hkey
    rcases NameMap.keys_foldl_insert? hzones hkey with hmem | ⟨zone, hnone⟩
    · exact hzone hmem
    · cases hnone

theorem namesOf_alike (name : String) :
    (namesOf first).find? name = (namesOf second).find? name :=
  (LinkResolution.resolve_find?_perm (namedOnce_backLinks hnames)
    (fun name => (zonesOf_alike h hnames name).symm) h.database.backLinks.symm name).symm

end

theorem namesOf_distinct (session : Session) : (namesOf session).Distinct := by
  have hempty : NameMap.Distinct ([] : NameMap TimeZone) := List.nodup_nil
  apply LinkResolution.resolve_distinct
  unfold zonesOf
  rw [compiledOf, foldl_add_zones]
  exact (hempty.foldl_insert? _).foldl_insert? _

section

variable {first second : Session} (h : first.Alike second)
  (hnames : first.database.names.Nodup)

include h hnames

theorem sortByKey_namesOf_alike :
    AliasIndex.sortByKey (namesOf first) = AliasIndex.sortByKey (namesOf second) :=
  (namesOf_distinct first).sortByKey_eq (namesOf_distinct second) (namesOf_alike h hnames)

theorem indexOf_namesOf_alike : indexOf (namesOf first) = indexOf (namesOf second) := by
  unfold indexOf
  rw [← AliasIndex.sort_sortByKey (namesOf first), sortByKey_namesOf_alike h hnames,
    AliasIndex.sort_sortByKey]

theorem Completes.of_alike {disk : Disk} (hcompletes : Completes first disk) :
    Completes second disk := by
  constructor
  · intro source hsource
    exact (hcompletes.zones source (h.database.zones.mem_iff.mpr hsource)).congr h.sameSetting
  · intro link hlink source hsource
    rw [← compiledOf_sources_alike h hnames] at hsource
    exact (hcompletes.links link (h.database.goodLinks.mem_iff.mpr hlink) source hsource).congr
      h.sameSetting
  · rw [h.outputDirectory, ← indexOf_namesOf_alike h hnames]
    exact hcompletes.index

end

variable {before after : Session}

theorem readSources_sound {sources : List String} {u : Unit}
    (h : readSources sources before = .ok u after) :
    (∀ path ∈ sources, Database.IsReadable before.disk path) ∧
      Database.IsConcat before.database (sources.map (Database.ofPath before.disk))
        after.database ∧
      ∃ messages, after = { before with database := after.database, messages } := by
  induction sources generalizing before with
  | nil =>
    cases h
    exact ⟨by simp, .nil _, _, rfl⟩
  | cons path rest ih =>
    obtain ⟨_, between, hfirst, hrest⟩ := bind_eq_ok.mp h
    obtain ⟨herror, rfl⟩ := readSource_eq_ok_iff.mp hfirst
    obtain ⟨happend, hsame⟩ := before.database.readPath_isAppend before.disk path
    obtain ⟨hreadable, hconcat, messages, hafter⟩ := ih hrest
    refine ⟨?_, .cons happend hconcat, messages, hafter⟩
    rw [List.forall_mem_cons]
    exact ⟨hsame.symm.trans herror, hreadable⟩

theorem readSources_complete {sources : List String}
    (h : ∀ path ∈ sources, Database.IsReadable before.disk path) :
    ∃ after, readSources sources before = .ok () after := by
  induction sources generalizing before with
  | nil => exact ⟨before, rfl⟩
  | cons path rest ih =>
    obtain ⟨hpath, hrest⟩ := List.forall_mem_cons.mp h
    have herror := (before.database.readPath_isAppend before.disk path).2.trans hpath
    obtain ⟨between, hfirst, hdisk⟩ : ∃ between, readSource path before = .ok () between ∧
        between.disk = before.disk := ⟨_, readSource_eq_ok_iff.mpr ⟨herror, rfl⟩, rfl⟩
    rw [← hdisk] at hrest
    obtain ⟨after, hafter⟩ := ih hrest
    exact ⟨after, bind_eq_ok.mpr ⟨(), between, hfirst, hafter⟩⟩

theorem extract_sound {sources : List String} {u : Unit}
    (h : extract sources before = .ok u after) :
    (∀ path ∈ sources, Database.IsReadable before.disk path) ∧
      Database.IsConcat before.database (sources.map (Database.ofPath before.disk))
        after.database ∧
      ∃ messages, after = { before with database := after.database, messages } := by
  obtain ⟨_, started, hstart, h⟩ := bind_eq_ok.mp h
  cases hstart
  obtain ⟨_, gathered, hread, h⟩ := bind_eq_ok.mp h
  obtain ⟨hreadable, hconcat, messages, hgathered⟩ := readSources_sound hread
  cases h
  exact ⟨hreadable, hconcat, _, by rw [hgathered]⟩

theorem extract_complete {sources : List String}
    (h : ∀ path ∈ sources, Database.IsReadable before.disk path) :
    ∃ after, extract sources before = .ok () after := by
  obtain ⟨started, hstart, hdisk⟩ : ∃ started,
      report [.info "======== Extracting TZ Data files"] before = .ok () started ∧
        started.disk = before.disk := ⟨_, rfl, rfl⟩
  rw [← hdisk] at h
  obtain ⟨gathered, hread⟩ := readSources_complete h
  exact ⟨_, bind_eq_ok.mpr ⟨(), started, hstart, bind_eq_ok.mpr ⟨(), gathered, hread, rfl⟩⟩⟩

/-- No rule set and no name comes from two of the sources, and no name has been read before. -/
structure Separate (session : Session) (sources : List String) : Prop where
  rules : Database.Apart (sources.map (Database.ofPath session.disk))
  names : (session.database.names ++
    sources.flatMap fun path => (Database.ofPath session.disk path).names).Nodup

variable {session : Session} {sources others : List String}

theorem Separate.of_perm (h : Separate session sources) (hperm : sources.Perm others) :
    Separate session others := by
  constructor
  · exact h.rules.perm (hperm.map _) fun hnone name => (hnone name).symm
  · exact ((hperm.flatMap_right _).append_left _).nodup_iff.mp h.names

/-- Sources that are read in another order give the same. -/
theorem extract_alike (hperm : sources.Perm others) (h : Separate session sources)
    {first second : Session} {u v : Unit} (hfirst : extract sources session = .ok u first)
    (hsecond : extract others session = .ok v second) :
    first.Alike second ∧ first.database.names.Nodup ∧ second.disk = first.disk := by
  obtain ⟨-, hconcat, _, hread⟩ := extract_sound hfirst
  obtain ⟨-, hother, _, hreadOther⟩ := extract_sound hsecond
  refine ⟨⟨?_, ?_, ?_, hconcat.alike (hperm.map _) h.rules hother⟩, ?_, ?_⟩
  · rw [hread, hreadOther]
  · rw [hread, hreadOther]
  · rw [hread, hreadOther]
  · rw [hconcat.names_perm.nodup_iff, List.flatMap_map]
    exact h.names
  · rw [hread, hreadOther]

/-- A compilation that succeeds does so in every order of its sources, with the same answer and the
same index. -/
theorem exists_compile_of_perm (hperm : sources.Perm others) (h : Separate session sources)
    {answer : List (String × TimeZone)} {final : Session}
    (hrun : compile sources session = .ok answer final) :
    ∃ otherFinal, compile others session = .ok answer otherFinal ∧
      ∀ directory ∈ session.outputDirectory, ∃ bytes,
        final.disk.read (Path.join directory indexFile) = .ok bytes ∧
          otherFinal.disk.read (Path.join directory indexFile) = .ok bytes := by
  rw [compile_eq] at hrun
  obtain ⟨_, first, hfirst, hrun⟩ := bind_eq_ok.mp hrun
  obtain ⟨hreadable, -, messages, hread⟩ := extract_sound hfirst
  obtain ⟨second, hsecond⟩ := extract_complete fun path hpath =>
    hreadable path (hperm.mem_iff.mpr hpath)
  obtain ⟨halike, hnames, hdisk⟩ := extract_alike hperm h hfirst hsecond
  obtain ⟨prepared, hprepare, hwithin, hcompletes, rfl, hindex⟩ := compileRead_sound hrun
  have hprepareOther := prepareOutput_congr hprepare hdisk
  rw [← halike.outputDirectory] at hprepareOther
  obtain ⟨otherFinal, hother⟩ :=
    compileRead_complete hprepareOther hwithin (hcompletes.of_alike halike hnames)
  obtain ⟨-, -, -, -, -, hindexOther⟩ := compileRead_sound hother
  rw [← sortByKey_namesOf_alike halike hnames] at hother
  refine ⟨otherFinal, ?_, fun directory hdirectory => ?_⟩
  · rw [compile_eq]
    exact bind_eq_ok.mpr ⟨(), second, hsecond, hother⟩
  · have houtput : first.outputDirectory = session.outputDirectory := by rw [hread]
    obtain ⟨bytes, hencode, hbytes⟩ := hindex directory (houtput ▸ hdirectory)
    obtain ⟨otherBytes, hotherEncode, hotherBytes⟩ :=
      hindexOther directory (halike.outputDirectory ▸ houtput ▸ hdirectory)
    rw [← indexOf_namesOf_alike halike hnames, hencode] at hotherEncode
    cases hotherEncode
    exact ⟨bytes, hbytes, hotherBytes⟩

def pairSession : Session where
  outputDirectory := some "out"
  disk :=
    { entries := [(["out"], .directory),
        (["zones"], .file (Bytes.utf8 "Rule R 1990 only - Jan 1 0 0 S\nZone A 0 - STD")),
        (["backward"], .file (Bytes.utf8 "Link A B"))] }

def pairRule : Source.Rule where
  name := "R"
  fromYear := 1990
  toYear := 1990
  type := none
  point := {}
  save := 0
  letter := some "S"

theorem pairSession_contents :
    Database.ofPath pairSession.disk "zones" =
        { ruleSets := [⟨pairRule, []⟩], zones := [steadySource 0] } ∧
      Database.ofPath pairSession.disk "backward" = { backLinks := [⟨"A", "B"⟩] } ∧
      ∀ path ∈ ["zones", "backward"],
        (({} : Database).readPath pairSession.disk path).error = none := by
  decide +kernel

theorem pairSession_separate : Separate pairSession ["zones", "backward"] := by
  obtain ⟨hzones, hback, -⟩ := pairSession_contents
  constructor
  · apply List.pairwise_pair.mpr
    rw [hback]
    exact fun name => Or.inr rfl
  · rw [List.flatMap_cons, List.flatMap_cons, List.flatMap_nil, hzones, hback]
    decide

structure HasPair (session : Session) : Prop where
  outputDirectory : session.outputDirectory = some "out"
  disk : session.disk = pairSession.disk
  verifier : session.verifier = {}
  zones : session.database.zones = [steadySource 0]
  goodLinks : session.database.goodLinks = []
  backLinks : session.database.backLinks = [⟨"A", "B"⟩]

theorem exists_extract_pair :
    ∃ read, extract ["zones", "backward"] pairSession = .ok () read ∧ HasPair read := by
  obtain ⟨hzones, hback, hreadable⟩ := pairSession_contents
  obtain ⟨read, hread⟩ := extract_complete hreadable
  obtain ⟨-, hconcat, messages, hsession⟩ := extract_sound hread
  rw [List.map_cons, List.map_cons, List.map_nil, hzones, hback] at hconcat
  refine ⟨read, hread, ?_, ?_, ?_, hconcat.zones, hconcat.goodLinks, hconcat.backLinks⟩
  · rw [hsession, pairSession]
  · rw [hsession]
  · rw [hsession, pairSession]

def pairNames : NameMap TimeZone :=
  [("A", steadyZone "A" 0), ("B", steadyZone "A" 0)]

theorem sortByKey_pairNames : AliasIndex.sortByKey pairNames = pairNames :=
  AliasIndex.sortByKey_of_pairwise (by decide +kernel)

theorem exists_indexOf_pairNames : ∃ bytes, indexOf pairNames = .ok bytes := by
  have hsorted : (AliasIndex.sort pairNames).1 = pairNames := by
    simp only [AliasIndex.sort, AliasIndex.sortFolded, sortByKey_pairNames]
    rw [AliasIndex.sortByKey_of_pairwise (by decide +kernel)]
    rfl
  rw [indexOf, hsorted]
  exact AliasIndex.encode_of_few (by decide) (by decide)

theorem sourceZone_steadySource (session : Session) :
    sourceZone session (steadySource 0) "A" = steadyZone "A" 0 := by
  change (Draft.ofDirectives ((steadySource 0).resolve fun _ => none).directives).toTimeZone "A" = _
  decide +kernel

namespace HasPair

theorem verdict_eq (h : HasPair session) : verdict session (steadySource 0) "A" = .ok true := by
  rw [verdict, sourceZone_steadySource, h.verifier]
  exact doubledZones_pass _ (by simp [doubledZones])

theorem namesOf_eq (h : HasPair session) : namesOf session = pairNames := by
  have hcompiled : compiledOf session = ⟨[("A", steadyZone "A" 0)], [("A", steadySource 0)]⟩ := by
    rw [compiledOf, h.zones, List.foldl_cons, List.foldl_nil]
    have hname : (steadySource 0).name = "A" := rfl
    rw [hname, passing?, h.verdict_eq, sourceZone_steadySource]
    rfl
  rw [namesOf, zonesOf, hcompiled, h.goodLinks, h.backLinks, List.foldl_nil]
  decide +kernel

/-- The zone and the index can be written. -/
theorem completes (h : HasPair session) :
    ∃ whole, session.disk.Within whole ∧ Completes session whole := by
  obtain ⟨bytes, hbytes⟩ := doubledZones_encode (steadyZone "A" 0) (by simp [doubledZones])
  obtain ⟨holding, hzone⟩ : ∃ holding,
      pairSession.disk.write (Path.join "out" "A") [] = .ok holding := ⟨_, rfl⟩
  obtain ⟨whole, hindex⟩ : ∃ whole, holding.write (Path.join "out" indexFile) [] = .ok whole := by
    cases hzone
    exact ⟨_, rfl⟩
  have hholding : holding.Within whole := .of_write hindex
  have hdirectory : ∀ directory ∈ session.outputDirectory, "out" = directory := by
    rw [h.outputDirectory]
    exact fun directory hdirectory => Option.some.inj hdirectory
  rw [h.disk]
  refine ⟨whole, (Disk.Within.of_write hzone).trans hholding, ?_, ?_, ?_⟩
  · rw [h.zones]
    intro source hsource
    obtain rfl := List.mem_singleton.mp hsource
    refine ⟨rfl, ⟨true, h.verdict_eq⟩, fun _ directory houtput => ?_⟩
    obtain rfl := hdirectory directory houtput
    refine ⟨⟨bytes, ?_⟩, by decide, ?_⟩
    · exact sourceZone_steadySource session ▸ hbytes
    · exact Disk.HasFile.of_within ⟨[], Disk.read_write hzone⟩ hholding
  · rw [h.goodLinks]
    exact List.forall_mem_nil _
  · intro directory houtput
    obtain rfl := hdirectory directory houtput
    rw [h.namesOf_eq]
    exact ⟨exists_indexOf_pairNames, [], Disk.read_write hindex⟩

end HasPair

theorem exists_compile_pair :
    ∃ final, compile ["zones", "backward"] pairSession = .ok pairNames final := by
  obtain ⟨read, hread, h⟩ := exists_extract_pair
  obtain ⟨whole, hwithin, hcompletes⟩ := h.completes
  have hexists : pairSession.disk.pathExists "out" = true := by decide
  have hprepare : prepareOutput read.outputDirectory read = .ok () read := by
    rw [h.outputDirectory]
    apply prepareDirectory_eq_ok_iff.mpr
    rw [h.disk, if_pos hexists, ← h.disk]
    refine ⟨read.disk, rfl, ?_, rfl⟩
    rw [h.disk]
    decide
  obtain ⟨final, hfinal⟩ := compileRead_complete hprepare hwithin hcompletes
  rw [h.namesOf_eq, sortByKey_pairNames] at hfinal
  refine ⟨final, ?_⟩
  rw [compile_eq]
  exact bind_eq_ok.mpr ⟨(), read, hread, hfinal⟩

/-- The result of a compilation does not depend on the order of its sources, if no rule set and no
name comes from two of them. In every order it succeeds or in none; the answers are equal, and the
bytes of the index too. -/
theorem compile_perm (hperm : sources.Perm others)
    (hrules : Database.Apart (sources.map (Database.ofPath session.disk)))
    (hnames : (session.database.names ++
      sources.flatMap fun path => (Database.ofPath session.disk path).names).Nodup) :
    ((∃ answer final, compile sources session = .ok answer final) ↔
      ∃ answer final, compile others session = .ok answer final) ∧
    ∀ {answer otherAnswer : List (String × TimeZone)} {final otherFinal : Session},
      compile sources session = .ok answer final →
      compile others session = .ok otherAnswer otherFinal →
        answer = otherAnswer ∧ ∀ directory ∈ session.outputDirectory, ∃ bytes,
          final.disk.read (Path.join directory indexFile) = .ok bytes ∧
            otherFinal.disk.read (Path.join directory indexFile) = .ok bytes := by
  have h : Separate session sources := ⟨hrules, hnames⟩
  constructor
  · constructor
    · rintro ⟨answer, final, hrun⟩
      obtain ⟨otherFinal, hother, -⟩ := exists_compile_of_perm hperm h hrun
      exact ⟨answer, otherFinal, hother⟩
    · rintro ⟨answer, final, hrun⟩
      obtain ⟨otherFinal, hother, -⟩ := exists_compile_of_perm hperm.symm (h.of_perm hperm) hrun
      exact ⟨answer, otherFinal, hother⟩
  · intro answer otherAnswer final otherFinal hrun hother
    obtain ⟨_, hsame, hindex⟩ := exists_compile_of_perm hperm h hrun
    rw [hother] at hsame
    cases hsame
    exact ⟨rfl, hindex⟩

/-- In both orders the second name leads to the zone of the other file. -/
theorem compile_perm_across_files :
    ["zones", "backward"].Perm ["backward", "zones"] ∧
      Database.Apart (["zones", "backward"].map (Database.ofPath pairSession.disk)) ∧
      (pairSession.database.names ++ ["zones", "backward"].flatMap fun path =>
        (Database.ofPath pairSession.disk path).names).Nodup ∧
      ∃ final otherFinal bytes, compile ["zones", "backward"] pairSession = .ok pairNames final ∧
        compile ["backward", "zones"] pairSession = .ok pairNames otherFinal ∧
        final.disk.read "out/ZoneInfoMap" = .ok bytes ∧
        otherFinal.disk.read "out/ZoneInfoMap" = .ok bytes := by
  have hperm : ["zones", "backward"].Perm ["backward", "zones"] := .swap _ _ _
  obtain ⟨hrules, hnames⟩ := pairSession_separate
  obtain ⟨final, hrun⟩ := exists_compile_pair
  obtain ⟨hsucceeds, hagree⟩ := compile_perm hperm hrules hnames
  obtain ⟨answer, otherFinal, hother⟩ := hsucceeds.mp ⟨pairNames, final, hrun⟩
  obtain ⟨rfl, hindex⟩ := hagree hrun hother
  obtain ⟨bytes, hbytes, hotherBytes⟩ := hindex "out" rfl
  exact ⟨hperm, hrules, hnames, final, otherFinal, bytes, hrun, hother, hbytes, hotherBytes⟩

end Compilation

end CivilTime
