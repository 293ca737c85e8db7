import CivilTime.Proofs.Faults
import CivilTime.Proofs.Reading

/-!
What files declare, and what a database holds once they have been read. The entries of a file, up
to its first fault, say which rules, zones and links it declares. Reading any number of files, with
or without faults, gives a database that holds exactly these, in their order, with the rules of one
name together. A faulty line adds nothing.
-/

namespace CivilTime.Source

namespace Entry

def rule? : Entry → Option Rule
  | .record (.ok (.rule rule)) => some rule
  | _ => none

def link? : Entry → Option Link
  | .record (.ok (.link link)) => some link
  | _ => none

def isUnknown : Entry → Bool
  | .record (.ok .unknown) => true
  | _ => false

end Entry

/-- The zone with the stretches of the continuation lines after it. A faulty one takes the zone with
it. -/
def Zone.continued? (zone : Zone) : List Entry → Option Zone
  | [] | .record _ :: _ => some zone
  | .nothing :: rest => zone.continued? rest
  | .continuation (.ok stretch) :: rest =>
    continued? { zone with others := zone.others ++ [stretch] } rest
  | .continuation (.error _) :: _ => none

def Entry.zones : List Entry → List Zone
  | [] => []
  | .record (.ok (.zone zone)) :: rest => (zone.continued? rest).toList ++ zones rest
  | _ :: rest => zones rest

/-- The link stays a name for its target: it stands in a file of such links, or has such a name. -/
def Link.isBack (backward : Bool) (link : Link) : Bool :=
  backward || isForcedBack link.name

structure Declarations where
  rules : List Rule := []
  goodLinks : List Link := []
  backLinks : List Link := []
  unknownLines : Nat := 0

namespace Declarations

def append (first second : Declarations) : Declarations where
  rules := first.rules ++ second.rules
  goodLinks := first.goodLinks ++ second.goodLinks
  backLinks := first.backLinks ++ second.backLinks
  unknownLines := first.unknownLines + second.unknownLines

def ofEntries (backward : Bool) (entries : List Entry) : Declarations where
  rules := entries.filterMap Entry.rule?
  goodLinks := (entries.filterMap Entry.link?).filter fun link => !link.isBack backward
  backLinks := (entries.filterMap Entry.link?).filter fun link => link.isBack backward
  unknownLines := entries.countP Entry.isUnknown

theorem ofEntries_append (backward : Bool) (first second : List Entry) :
    ofEntries backward (first ++ second) =
      (ofEntries backward first).append (ofEntries backward second) := by
  simp [ofEntries, append]

theorem ofEntries_link (backward : Bool) (link : Link) :
    ofEntries backward [.record (.ok (.link link))] =
      if link.isBack backward then { backLinks := [link] } else { goodLinks := [link] } := by
  have hlinks : [Entry.record (.ok (.link link))].filterMap Entry.link? = [link] := rfl
  simp only [ofEntries, hlinks, List.filter_singleton]
  cases link.isBack backward <;> rfl

end Declarations

/-- The sets hold the rules, those of one name together and in their order. -/
structure RuleSet.Hold (sets : List RuleSet) (rules : List Rule) : Prop where
  names : (sets.map RuleSet.name).Nodup
  rules_eq : ∀ set ∈ sets, set.rules = rules.filter fun rule => rule.name = set.name
  exists_set : ∀ rule ∈ rules, ∃ set ∈ sets, set.name = rule.name

namespace RuleSet.Hold

variable {sets : List RuleSet} {rules : List Rule} {rule : Rule}

/-- The first rule of a name begins a set. -/
theorem concat (h : Hold sets rules) (hfresh : ∀ set ∈ sets, set.name ≠ rule.name) :
    Hold (sets ++ [⟨rule, []⟩]) (rules ++ [rule]) := by
  constructor
  · have hname : rule.name ∉ sets.map RuleSet.name := by
      simpa using hfresh
    rw [List.map_append, List.map_singleton, ← List.concat_eq_append]
    exact h.names.concat hname
  · intro set hmem
    rw [List.filter_append]
    obtain hold | hnew := List.mem_append.mp hmem
    · rw [← h.rules_eq set hold]
      simp [(hfresh set hold).symm]
    · -- A rule of the name would have a set of the name.
      have hnone : (rules.filter fun other => other.name = rule.name) = [] := by
        rw [List.filter_eq_nil_iff]
        intro other hother hname
        obtain ⟨set, hmem, heq⟩ := h.exists_set other hother
        exact hfresh set hmem (heq.trans (of_decide_eq_true hname))
      have hname : RuleSet.name ⟨rule, []⟩ = rule.name := rfl
      rw [List.mem_singleton.mp hnew, hname, hnone]
      simp [RuleSet.rules]
  · intro other hother
    obtain hold | hnew := List.mem_append.mp hother
    · obtain ⟨set, hmem, hname⟩ := h.exists_set other hold
      exact ⟨set, List.mem_append_left _ hmem, hname⟩
    · rw [List.mem_singleton.mp hnew]
      exact ⟨⟨rule, []⟩, by simp, rfl⟩

/-- Another rule of a name comes last in the set that there is. -/
theorem enlarge (h : Hold sets rules) {found : RuleSet} (hfound : found ∈ sets)
    (hname : found.name = rule.name) :
    Hold (sets.map fun set =>
      if set.name = rule.name then { found with others := found.others ++ [rule] } else set)
      (rules ++ [rule]) := by
  have hkept : ∀ set : RuleSet,
      (if set.name = rule.name then { found with others := found.others ++ [rule] }
        else set : RuleSet).name = set.name := by
    intro set
    split
    · next hsame => exact hname.trans hsame.symm
    · rfl
  constructor
  · simpa only [List.map_map, Function.comp_def, hkept] using h.names
  · intro set hmem
    obtain ⟨old, hold, rfl⟩ := List.mem_map.mp hmem
    rw [List.filter_append, hkept]
    by_cases hsame : old.name = rule.name
    · have hrules := h.rules_eq found hfound
      rw [hname] at hrules
      rw [if_pos hsame, hsame, ← hrules]
      simp [RuleSet.rules]
    · rw [if_neg hsame, ← h.rules_eq old hold]
      simp [Ne.symm hsame]
  · intro other hother
    have hset : ∃ set ∈ sets, set.name = other.name := by
      obtain hold | hnew := List.mem_append.mp hother
      · exact h.exists_set other hold
      · rw [List.mem_singleton.mp hnew]
        exact ⟨found, hfound, hname⟩
    obtain ⟨set, hmem, heq⟩ := hset
    exact ⟨_, List.mem_map_of_mem hmem, (hkept set).trans heq⟩

end RuleSet.Hold

namespace Database

theorem hold_insertRule {database : Database} {rules : List Rule}
    (h : RuleSet.Hold database.ruleSets rules) (rule : Rule) :
    RuleSet.Hold (database.insertRule rule).ruleSets (rules ++ [rule]) := by
  unfold insertRule
  cases hset : database.ruleSet? rule.name with
  | none =>
    apply h.concat
    simpa [ruleSet?] using hset
  | some found => exact h.enlarge (List.mem_of_find?_eq_some hset) (name_of_ruleSet? hset)

/-- A rule is put into the rule sets and nowhere else. -/
theorem exists_insertRule (database : Database) (rule : Rule) :
    ∃ ruleSets, database.insertRule rule = { database with ruleSets } := by
  unfold insertRule
  split
  · exact ⟨_, rfl⟩
  · exact ⟨_, rfl⟩

/-- One database holds what another does and the declarations, zones apart. -/
structure Gains (first : Database) (added : Declarations) (last : Database) : Prop where
  ruleSets : ∀ rules, RuleSet.Hold first.ruleSets rules →
    RuleSet.Hold last.ruleSets (rules ++ added.rules)
  goodLinks : last.goodLinks = first.goodLinks ++ added.goodLinks
  backLinks : last.backLinks = first.backLinks ++ added.backLinks
  unknownLines : last.unknownLines = first.unknownLines + added.unknownLines

namespace Gains

variable {first middle last : Database} {added more : Declarations}

theorem nothing (database : Database) : Gains database {} database := by
  constructor
  · intro rules hold
    rwa [List.append_nil]
  · exact (List.append_nil _).symm
  · exact (List.append_nil _).symm
  · rfl

theorem trans (h : Gains first added middle) (hmore : Gains middle more last) :
    Gains first (added.append more) last := by
  constructor
  · intro rules hold
    have hlast := hmore.ruleSets _ (h.ruleSets rules hold)
    rwa [List.append_assoc] at hlast
  · rw [hmore.goodLinks, h.goodLinks, List.append_assoc]
    rfl
  · rw [hmore.backLinks, h.backLinks, List.append_assoc]
    rfl
  · rw [hmore.unknownLines, h.unknownLines, Nat.add_assoc]
    rfl

/-- To close a zone adds nothing but the zone. -/
theorem of_close {openZone : Option Zone} (h : Gains (first.close openZone) added last) :
    Gains first added last := by
  cases openZone with
  | none => exact h
  | some zone => exact ⟨h.ruleSets, h.goodLinks, h.backLinks, h.unknownLines⟩

theorem close (h : Gains first added last) (openZone : Option Zone) :
    Gains first added (last.close openZone) := by
  cases openZone with
  | none => exact h
  | some zone => exact ⟨h.ruleSets, h.goodLinks, h.backLinks, h.unknownLines⟩

end Gains

theorem addRecord_gains (database : Database) (backward : Bool) (text : String) (record : Record) :
    Gains database (.ofEntries backward [.record (.ok record)])
      (database.addRecord backward text record).database := by
  cases record with
  | rule rule =>
    obtain ⟨ruleSets, hinsert⟩ := database.exists_insertRule rule
    obtain ⟨-, hgood, hback, hunknown⟩ := Gains.nothing database
    have hsets : ∀ rules, RuleSet.Hold database.ruleSets rules →
        RuleSet.Hold ruleSets (rules ++ [rule]) := by
      intro rules hold
      have hafter := hold_insertRule hold rule
      rwa [hinsert] at hafter
    simp only [addRecord, hinsert]
    exact ⟨hsets, hgood, hback, hunknown⟩
  | zone zone => exact .nothing database
  | link link =>
    obtain ⟨hsets, hgood, hback, hunknown⟩ := Gains.nothing database
    rw [Declarations.ofEntries_link]
    simp only [addRecord, addLink]
    change Gains database _ (if link.isBack backward then _ else _)
    cases link.isBack backward with
    | true => exact ⟨hsets, hgood, rfl, hunknown⟩
    | false => exact ⟨hsets, rfl, hback, hunknown⟩
  | unknown =>
    obtain ⟨hsets, hgood, hback, -⟩ := Gains.nothing database
    exact ⟨hsets, hgood, hback, rfl⟩

end Database

namespace Reading

/-- The zones that a reading will have brought about once the entries have been read. -/
def zonesWith (reading : Reading) (entries : List Entry) : List Zone :=
  reading.database.zones ++ (reading.openZone.bind fun zone => zone.continued? entries).toList ++
    Entry.zones entries

theorem zonesWith_nil (reading : Reading) :
    reading.zonesWith [] = reading.finish.database.zones := by
  unfold zonesWith finish
  cases reading.openZone with
  | none => simp [Entry.zones, Database.close]
  | some zone => simp [Entry.zones, Zone.continued?, Database.close, Database.addZone]

/-- A line that is no continuation closes the open zone. -/
theorem zonesWith_record (reading : Reading) (record : Except Fault Record) (rest : List Entry) :
    reading.zonesWith (.record record :: rest) =
      (reading.database.close reading.openZone).zones ++ Entry.zones (.record record :: rest) := by
  unfold zonesWith
  cases reading.openZone with
  | none => simp [Database.close]
  | some zone => simp [Zone.continued?, Database.close, Database.addZone]

theorem Step.gains {backward : Bool} {text : String} {reading next : Reading}
    (h : Step backward text reading next) :
    Database.Gains reading.database (.ofEntries backward [Line.entry text]) next.database := by
  cases h with
  | nothing hentry =>
    rw [hentry]
    exact .nothing reading.database
  | stray stretch hentry hopen =>
    rw [hentry]
    exact .nothing reading.database
  | continued zone stretch hentry hopen =>
    rw [hentry]
    exact .nothing reading.database
  | broken zone fault hentry hopen =>
    rw [hentry]
    exact .nothing reading.database
  | record record hentry =>
    rw [hentry]
    exact .of_close (Database.addRecord_gains _ backward text record)
  | faulty fault hentry =>
    rw [hentry]
    exact .of_close (.nothing _)

theorem Step.zonesWith_eq {backward : Bool} {text : String} {reading next : Reading}
    (h : Step backward text reading next) (rest : List Entry) :
    next.zonesWith rest = reading.zonesWith (Line.entry text :: rest) := by
  cases h with
  | nothing hentry =>
    rw [hentry]
    rfl
  | stray stretch hentry hopen =>
    rw [hentry]
    simp [zonesWith, hopen, Entry.zones]
  | continued zone stretch hentry hopen =>
    rw [hentry]
    simp [zonesWith, hopen, Entry.zones, Zone.continued?]
  | broken zone fault hentry hopen =>
    rw [hentry]
    simp [zonesWith, hopen, Entry.zones, Zone.continued?]
  | record record hentry =>
    rw [hentry, zonesWith_record]
    cases record with
    | rule rule =>
      obtain ⟨ruleSets, hinsert⟩ :=
        (reading.database.close reading.openZone).exists_insertRule rule
      simp [zonesWith, Database.addRecord, hinsert, Entry.zones]
    | zone zone => simp [zonesWith, Database.addRecord, Entry.zones]
    | link link =>
      simp only [zonesWith, Database.addRecord, Database.addLink, Entry.zones]
      split <;> simp
    | unknown => simp [zonesWith, Database.addRecord, Entry.zones]
  | faulty fault hentry =>
    rw [hentry, zonesWith_record]
    simp [zonesWith, Entry.zones]

namespace Run

variable {backward : Bool} {reading final : Reading} {read : List String}

theorem gains (h : Run backward reading read final) :
    Database.Gains reading.database (.ofEntries backward (read.map Line.entry))
      final.database := by
  induction h with
  | done reading => exact .nothing reading.database
  | stop hstep hnext => exact hstep.gains
  | @line text reading next final lines hstep hnext hrest ih =>
    rw [List.map_cons, ← List.singleton_append, Declarations.ofEntries_append]
    exact hstep.gains.trans ih

theorem zones_eq (h : Run backward reading read final) :
    final.finish.database.zones = reading.zonesWith (read.map Line.entry) := by
  -- Each line moves from the entries still to be read into the reading, and the zones stay.
  rw [← zonesWith_nil]
  induction h with
  | done reading => rfl
  | stop hstep hnext => exact hstep.zonesWith_eq []
  | line hstep hnext hrest ih => exact ih.trans (hstep.zonesWith_eq _)

end Run

end Reading

structure SourceText where
  backward : Bool
  lines : List String

namespace SourceText

def entries (file : SourceText) : List Entry :=
  Entry.upToFault false (file.lines.map Line.entry)

def declarations (file : SourceText) : Declarations :=
  .ofEntries file.backward file.entries

def zones (file : SourceText) : List Zone :=
  Entry.zones file.entries

end SourceText

namespace Database

theorem readLines_gains (database : Database) (file : SourceText) :
    Gains database file.declarations (database.readLines file.backward file.lines).database ∧
      (database.readLines file.backward file.lines).database.zones =
        database.zones ++ file.zones := by
  obtain ⟨read, rest, hlines, hrun, hrest⟩ :=
    Reading.exists_run file.backward { database } file.lines rfl
  have hentries : file.entries = read.map Line.entry := by
    rw [SourceText.entries, hlines]
    exact hrun.upToFault_eq rfl hrest
  constructor
  · rw [SourceText.declarations, hentries]
    exact hrun.gains.close _
  · rw [SourceText.zones, hentries, ← List.append_nil database.zones]
    exact hrun.zones_eq

end Database

namespace Rule

/-- A rule does not end before it begins. -/
theorem years_of_read {fields rest : List String} {rule : Rule}
    (h : read fields = .ok (rule, rest)) : rule.fromYear ≤ rule.toYear := by
  unfold read at h
  split at h
  · next name fromYear toYear type fields =>
    by_cases hfew : fields.length < 2
    · simp only [hfew, if_true] at h
      cases h
    · simp only [hfew, if_false, Bytes.bind_eq_ok] at h
      obtain ⟨first, -, last, -, h⟩ := h
      by_cases hyears : last < first
      · simp only [hyears, if_true] at h
        cases h
      · simp only [hyears, if_false, Bytes.bind_eq_ok] at h
        obtain ⟨⟨point, left⟩, -, h⟩ := h
        dsimp only at h
        split at h
        · simp only [Bytes.bind_eq_ok] at h
          obtain ⟨save, -, h⟩ := h
          cases h
          exact Int.not_lt.mp hyears
        · cases h
  · cases h

end Rule

theorem Record.years_of_read {keyword : String} {fields : List String} {rule : Rule}
    (h : read keyword fields = .ok (.rule rule)) : rule.fromYear ≤ rule.toYear := by
  unfold read at h
  dsimp only at h
  split_ifs at h with hrule hzone hfew hlink
  · cases hread : Rule.read fields with
    | error fault =>
      rw [hread] at h
      cases h
    | ok result =>
      rw [hread] at h
      cases h
      exact Rule.years_of_read hread
  · cases hread : Zone.read fields with
    | error fault =>
      rw [hread] at h
      cases h
    | ok zone =>
      rw [hread] at h
      cases h
  · split at h
    · cases h
    · cases h
  · cases h

theorem Entry.upToFault_sublist (isOpen : Bool) (entries : List Entry) :
    (upToFault isOpen entries).Sublist entries := by
  induction entries generalizing isOpen with
  | nil => exact .slnil
  | cons entry entries ih =>
    unfold upToFault
    split
    · exact (List.nil_sublist entries).cons_cons entry
    · exact (ih _).cons_cons entry

theorem Entry.eq_of_rule? {entry : Entry} {rule : Rule} (h : entry.rule? = some rule) :
    entry = .record (.ok (.rule rule)) := by
  unfold rule? at h
  split at h
  · cases h
    rfl
  · cases h

theorem SourceText.years_of_mem {file : SourceText} {rule : Rule}
    (h : rule ∈ file.declarations.rules) : rule.fromYear ≤ rule.toYear := by
  obtain ⟨entry, hmem, hrule⟩ := List.mem_filterMap.mp h
  obtain ⟨text, -, hentry⟩ := List.mem_map.mp ((Entry.upToFault_sublist false _).subset hmem)
  rw [Entry.eq_of_rule? hrule, Line.entry] at hentry
  cases hread : Line.read text with
  | blank => simp [hread] at hentry
  | wordless => simp [hread] at hentry
  | continuation fields => simp [hread] at hentry
  | record keyword fields =>
    rw [hread] at hentry
    exact Record.years_of_read (Entry.record.inj hentry)

def Declarations.ofTexts (files : List SourceText) : Declarations where
  rules := files.flatMap fun file => file.declarations.rules
  goodLinks := files.flatMap fun file => file.declarations.goodLinks
  backLinks := files.flatMap fun file => file.declarations.backLinks
  unknownLines := (files.map fun file => file.declarations.unknownLines).sum

namespace Database

def readTexts (database : Database) (files : List SourceText) : Database :=
  files.foldl (fun database file => (database.readLines file.backward file.lines).database) database

theorem readTexts_gains (database : Database) (files : List SourceText) :
    Gains database (.ofTexts files) (database.readTexts files) ∧
      (database.readTexts files).zones = database.zones ++ files.flatMap SourceText.zones := by
  induction files generalizing database with
  | nil => exact ⟨.nothing database, (List.append_nil _).symm⟩
  | cons file files ih =>
    obtain ⟨hgains, hzones⟩ := database.readLines_gains file
    obtain ⟨hmore, hothers⟩ := ih (database.readLines file.backward file.lines).database
    constructor
    · exact hgains.trans hmore
    · rw [List.flatMap_cons, ← List.append_assoc, ← hzones]
      exact hothers

/-- The database holds what the files declare: the rules by their names, and everything in the order
in which it is declared. -/
structure Declared (database : Database) (files : List SourceText) : Prop where
  names : (database.ruleSets.map RuleSet.name).Nodup
  rules : ∀ set ∈ database.ruleSets, set.rules ≠ [] ∧
    set.rules = (Declarations.ofTexts files).rules.filter fun rule => rule.name = set.name
  inOrder : ∀ set ∈ database.ruleSets, ∀ rule ∈ set.rules,
    rule.name = set.name ∧ rule.fromYear ≤ rule.toYear
  exists_set : ∀ rule ∈ (Declarations.ofTexts files).rules,
    ∃ set ∈ database.ruleSets, set.name = rule.name
  zones : database.zones = files.flatMap SourceText.zones
  goodLinks : database.goodLinks = (Declarations.ofTexts files).goodLinks
  backLinks : database.backLinks = (Declarations.ofTexts files).backLinks
  unknownLines : database.unknownLines = (Declarations.ofTexts files).unknownLines

theorem readTexts_declared (files : List SourceText) : (readTexts {} files).Declared files := by
  obtain ⟨hgains, hzones⟩ := readTexts_gains {} files
  have hempty : RuleSet.Hold [] [] := ⟨List.nodup_nil, by simp, by simp⟩
  have hold := hgains.ruleSets [] hempty
  rw [List.nil_append] at hold
  constructor
  · exact hold.names
  · intro set hset
    exact ⟨List.cons_ne_nil _ _, hold.rules_eq set hset⟩
  · intro set hset rule hrule
    rw [hold.rules_eq set hset, List.mem_filter] at hrule
    obtain ⟨file, -, hmem⟩ := List.mem_flatMap.mp hrule.1
    exact ⟨of_decide_eq_true hrule.2, SourceText.years_of_mem hmem⟩
  · exact hold.exists_set
  · exact hzones
  · exact hgains.goodLinks
  · exact hgains.backLinks
  · exact hgains.unknownLines.trans (Nat.zero_add _)

/-- A faulty line adds nothing. If it is no continuation line, the zone that was open is complete.
-/
theorem database_of_failsAt {database : Database} {backward : Bool} {before : List String}
    {text : String} {fault : Fault} (h : database.FailsAt backward before text fault)
    (after : List String) :
    (database.readLines backward (before ++ text :: after)).database =
      if (Line.entry text).isContinuation then (database.reading backward before).database
      else (database.reading backward before).database.close
        (database.reading backward before).openZone := by
  have hsound : (database.reading backward before).fault = none := h.sound
  have hfaulty : ((database.reading backward before).readLine backward text).fault ≠ none := by
    have hread := h.faulty
    rw [readLines_eq, reading, List.foldl_append] at hread
    intro hnone
    cases hnone.symm.trans hread
  obtain ⟨hopen, hdatabase⟩ :=
    (Reading.readLine_step backward _ text hsound).database_of_fault hsound hfaulty
  rw [readLines_eq, reading_of_fault database backward hfaulty, Reading.finish, hopen]
  exact hdatabase

/-- No rule is ever put under a name that is not its own. -/
theorem readLines_ne_mismatch (database : Database) (backward : Bool) (lines : List String)
    (rule set : String) :
    (database.readLines backward lines).fault ≠ some (.ruleNameMismatch rule set) := by
  intro hfault
  obtain ⟨before, text, after, -, -, hentry⟩ := database.exists_faulty_line backward hfault
  obtain htext | ⟨hother, -⟩ := Line.cases_of_fault? hentry
  · exact htext
  · cases hother

/-- After any files the database holds what they declare, a faulty line leaves no trace in it, and
two of the cases of a reading never arise. -/
theorem readTexts_faithful :
    (∀ files : List SourceText, (readTexts {} files).Declared files) ∧
    (∀ (database : Database) (backward : Bool) (before after : List String) (text : String)
      (fault : Fault), database.FailsAt backward before text fault →
        (database.readLines backward (before ++ text :: after)).database =
          if (Line.entry text).isContinuation then (database.reading backward before).database
          else (database.reading backward before).database.close
            (database.reading backward before).openZone) ∧
    (∀ (database : Database) (backward : Bool) (lines : List String) (rule set : String),
      (database.readLines backward lines).fault ≠ some (.ruleNameMismatch rule set)) ∧
    ∀ text : String, Line.read text ≠ .wordless := by
  refine ⟨readTexts_declared, ?_, readLines_ne_mismatch, Line.read_ne_wordless⟩
  intro database backward before after text fault hfails
  exact database_of_failsAt hfails after

def townLines : List String :=
  ["Rule R 1990 only - Jan 1 1:00 0 -", "Zone Town 0 R TST 1990"]

/-- A faulty continuation line takes the zone with it, a faulty link leaves it. -/
theorem readTexts_faithful_town :
    FailsAt {} false townLines " 1:00 - TST 1991 Foo" (.unknownMonth "Foo") ∧
      (readLines {} false (townLines ++ [" 1:00 - TST 1991 Foo", "Link Town City"])).database =
        (reading {} false townLines).database ∧
      FailsAt {} false townLines "Link Town" .incompleteLink ∧
      (readLines {} false (townLines ++ ["Link Town", " 1:00 - TST"])).database =
        (reading {} false townLines).database.close (reading {} false townLines).openZone := by
  have hcontinuation :
      FailsAt {} false townLines " 1:00 - TST 1991 Foo" (.unknownMonth "Foo") :=
    ⟨by decide +kernel, by decide +kernel⟩
  have hlink : FailsAt {} false townLines "Link Town" .incompleteLink :=
    ⟨by decide +kernel, by decide +kernel⟩
  have hindented : (Line.entry " 1:00 - TST 1991 Foo").isContinuation = true := by decide +kernel
  have hrecord : ¬(Line.entry "Link Town").isContinuation = true := by decide +kernel
  have hlost := readTexts_faithful.2.1 {} false townLines ["Link Town City"] _ _ hcontinuation
  have hleft := readTexts_faithful.2.1 {} false townLines [" 1:00 - TST"] _ _ hlink
  rw [if_pos hindented] at hlost
  rw [if_neg hrecord] at hleft
  exact ⟨hcontinuation, hlost, hlink, hleft⟩

end Database

end CivilTime.Source
