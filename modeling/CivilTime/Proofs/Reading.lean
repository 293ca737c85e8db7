import CivilTime.Proofs.Bytes
import CivilTime.Source.File
import Mathlib.Tactic

/-!
What a file adds to a database does not depend on what has been read before: its zones and links
come after those that are there, and its rules after the rules of the same name. So files that have
no rule set in common may be read in any order.
-/

namespace CivilTime.Source

def RuleSet.join? : Option RuleSet → Option RuleSet → Option RuleSet
  | none, second => second
  | some first, none => some first
  | some first, some second => some { first with others := first.others ++ second.rules }

@[simp]
theorem RuleSet.join?_none (set : Option RuleSet) : join? set none = set := by
  cases set <;> rfl

@[simp]
theorem RuleSet.none_join? (set : Option RuleSet) : join? none set = set := rfl

theorem RuleSet.join?_assoc (first second third : Option RuleSet) :
    join? (join? first second) third = join? first (join? second third) := by
  cases first with
  | none => rfl
  | some first =>
    cases second with
    | none => rfl
    | some second =>
      cases third with
      | none => rfl
      | some third => simp [join?, rules]

namespace Database

/-- One database holds what another does, followed by what a third one adds. -/
structure IsAppend (first added whole : Database) : Prop where
  ruleSet : ∀ name, whole.ruleSet? name =
    RuleSet.join? (first.ruleSet? name) (added.ruleSet? name)
  zones : whole.zones = first.zones ++ added.zones
  goodLinks : whole.goodLinks = first.goodLinks ++ added.goodLinks
  backLinks : whole.backLinks = first.backLinks ++ added.backLinks

namespace IsAppend

variable {first second whole : Database}

theorem nil (database : Database) : IsAppend database {} database := by
  constructor
  · intro name
    exact (RuleSet.join?_none _).symm
  all_goals exact (List.append_nil _).symm

theorem assoc {added secondMore wholeMore : Database} (h : IsAppend first second whole)
    (hsecond : IsAppend second added secondMore) (hwhole : IsAppend whole added wholeMore) :
    IsAppend first secondMore wholeMore := by
  constructor
  · intro name
    rw [hwhole.ruleSet, h.ruleSet, hsecond.ruleSet, RuleSet.join?_assoc]
  · rw [hwhole.zones, h.zones, hsecond.zones, List.append_assoc]
  · rw [hwhole.goodLinks, h.goodLinks, hsecond.goodLinks, List.append_assoc]
  · rw [hwhole.backLinks, h.backLinks, hsecond.backLinks, List.append_assoc]

end IsAppend

theorem close_isAppend (database : Database) (openZone : Option Zone) :
    IsAppend database { zones := openZone.toList } (database.close openZone) := by
  cases openZone with
  | none => exact .nil database
  | some zone =>
    constructor
    · intro name
      exact (RuleSet.join?_none _).symm
    · rfl
    all_goals exact (List.append_nil _).symm

theorem addLink_isAppend (database : Database) (backward : Bool) (link : Link) :
    IsAppend database (({} : Database).addLink backward link)
      (database.addLink backward link) := by
  unfold addLink
  split
  all_goals
    constructor
    · intro name
      exact (RuleSet.join?_none _).symm
    all_goals simp

theorem name_of_ruleSet? {database : Database} {name : String} {set : RuleSet}
    (h : database.ruleSet? name = some set) : set.name = name := by
  simpa using List.find?_some h

/-- Each name is found where it was if a set of the same name takes the place of another. -/
theorem ruleSet?_map (database : Database) {larger : RuleSet} {name : String}
    (h : larger.name = name) (other : String) :
    ({ database with
        ruleSets := database.ruleSets.map fun set => if set.name = name then larger else set } :
      Database).ruleSet? other =
      (database.ruleSet? other).map fun set => if set.name = name then larger else set := by
  have hname : ∀ set : RuleSet,
      (if set.name = name then larger else set).name = set.name := by
    intro set
    split
    · next hset => exact h.trans hset.symm
    · rfl
  simp only [ruleSet?, List.find?_map, Function.comp_def, hname]

/-- A rule can always be added: the set that it is added to has been found by its name. -/
theorem addRule_isAppend (database : Database) (rule : Rule) :
    ∃ after, database.addRule rule = .ok after ∧
      IsAppend database { ruleSets := [⟨rule, []⟩] } after := by
  have hadded : ∀ name, ({ ruleSets := [⟨rule, []⟩] } : Database).ruleSet? name =
      if rule.name = name then some ⟨rule, []⟩ else none := by
    intro name
    by_cases hname : rule.name = name
    · simp [ruleSet?, RuleSet.name, hname]
    · simp [ruleSet?, RuleSet.name, hname]
  unfold addRule
  cases hset : database.ruleSet? rule.name with
  | none =>
    refine ⟨_, rfl, fun name => ?_, by simp, by simp, by simp⟩
    rw [hadded]
    by_cases hname : rule.name = name
    · rw [← hname, hset, if_pos rfl]
      unfold ruleSet? at hset ⊢
      rw [List.find?_append, hset]
      simp [RuleSet.name]
    · rw [if_neg hname, RuleSet.join?_none]
      unfold ruleSet?
      rw [List.find?_append]
      simp [RuleSet.name, hname]
  | some set =>
    have hsame := name_of_ruleSet? hset
    have hadd : set.add rule = .ok { set with others := set.others ++ [rule] } := by
      rw [RuleSet.add, if_pos hsame.symm]
    have hlarger : RuleSet.name { set with others := set.others ++ [rule] } = rule.name := hsame
    simp only [hadd]
    refine ⟨_, rfl, fun name => ?_, by simp, by simp, by simp⟩
    rw [hadded, ruleSet?_map database hlarger]
    by_cases hrule : rule.name = name
    · rw [← hrule, hset, if_pos rfl, Option.map_some, if_pos hsame]
      rfl
    · rw [if_neg hrule, RuleSet.join?_none]
      cases hother : database.ruleSet? name with
      | none => rfl
      | some other =>
        rw [Option.map_some, if_neg]
        rw [name_of_ruleSet? hother]
        exact Ne.symm hrule

/-- A line is faulty whatever has been read before, or adds the same to every database. -/
theorem readRecord_uniform (backward : Bool) (text keyword : String) (fields : List String) :
    (∃ fault, ∀ database : Database,
      database.readRecord backward text keyword fields = .error fault) ∨
    ∃ added openZone messages, ∀ database : Database, ∃ after,
      database.readRecord backward text keyword fields =
        .ok { database := after, openZone, messages } ∧ IsAppend database added after := by
  unfold readRecord
  extract_lets word
  by_cases hrule : Keyword.rule.accepts word
  · simp only [hrule, if_true]
    cases hread : Rule.read fields with
    | error fault => exact Or.inl ⟨fault, fun _ => rfl⟩
    | ok result =>
      refine Or.inr ⟨{ ruleSets := [⟨result.1, []⟩] }, none, [], fun database => ?_⟩
      obtain ⟨after, hadd, happend⟩ := addRule_isAppend database result.1
      refine ⟨after, ?_, happend⟩
      simp only [bind, Except.bind, hadd]
      rfl
  by_cases hzone : Keyword.zone.accepts word
  · simp only [hrule, hzone, if_true]
    by_cases hfew : fields.length < 4
    · simp only [hfew, if_true]
      exact Or.inl ⟨_, fun _ => rfl⟩
    · simp only [hfew, if_false]
      cases hread : Zone.read fields with
      | error fault => exact Or.inl ⟨fault, fun _ => rfl⟩
      | ok zone => exact Or.inr ⟨{}, some zone, [], fun database => ⟨database, rfl, .nil database⟩⟩
  by_cases hlink : Keyword.link.accepts word
  · simp only [hrule, hzone, hlink, if_true]
    cases fields with
    | nil => exact Or.inl ⟨_, fun _ => rfl⟩
    | cons target rest =>
      cases rest with
      | nil => exact Or.inl ⟨_, fun _ => rfl⟩
      | cons name rest =>
        exact Or.inr ⟨_, none, [], fun database =>
          ⟨_, rfl, addLink_isAppend database backward ⟨target, name⟩⟩⟩
  · simp only [hrule, hzone, hlink]
    refine Or.inr ⟨{}, none, _, fun database => ⟨_, rfl, ?_⟩⟩
    obtain ⟨hrules, hzones, hgood, hback⟩ := IsAppend.nil database
    exact ⟨hrules, hzones, hgood, hback⟩

end Database

/-- Two readings of the same lines, one of them into a database that holds more. -/
def Reading.Parallel (first : Database) (alone whole : Reading) : Prop :=
  ∃ database, Database.IsAppend first alone.database database ∧ whole = { alone with database }

namespace Reading.Parallel

variable {first : Database} {alone whole : Reading}

theorem readLine (h : Parallel first alone whole) (backward : Bool) (text : String) :
    Parallel first (alone.readLine backward text) (whole.readLine backward text) := by
  obtain ⟨database, happend, rfl⟩ := h
  have hclosed := happend.assoc (alone.database.close_isAppend alone.openZone)
    (database.close_isAppend alone.openZone)
  unfold Reading.readLine
  by_cases hfault : alone.fault.isSome
  · simp only [hfault, if_true]
    exact ⟨database, happend, rfl⟩
  · simp only [hfault]
    cases Line.read text with
    | blank => exact ⟨database, happend, rfl⟩
    | wordless => exact ⟨_, hclosed, rfl⟩
    | continuation fields =>
      cases hopen : alone.openZone with
      | none => exact ⟨database, happend, rfl⟩
      | some zone =>
        cases hzone : zone.continueWith fields with
        | error fault =>
          simp only [Database.readContinuation, hzone]
          exact ⟨database, happend, rfl⟩
        | ok longer =>
          simp only [Database.readContinuation, hzone]
          exact ⟨database, happend, rfl⟩
    | record keyword fields =>
      rcases Database.readRecord_uniform backward text keyword fields with
        ⟨fault, hfaulty⟩ | ⟨added, openZone, messages, hadds⟩
      · simp only [hfaulty]
        exact ⟨_, hclosed, rfl⟩
      · obtain ⟨aloneAfter, halone, haloneAppend⟩ := hadds (alone.database.close alone.openZone)
        obtain ⟨after, hafter, hafterAppend⟩ := hadds (database.close alone.openZone)
        simp only [halone, hafter]
        exact ⟨after, hclosed.assoc haloneAppend hafterAppend, rfl⟩

theorem readLines (h : Parallel first alone whole) (backward : Bool) (lines : List String) :
    Parallel first (lines.foldl (Reading.readLine backward) alone)
      (lines.foldl (Reading.readLine backward) whole) := by
  induction lines generalizing alone whole with
  | nil => exact h
  | cons line rest ih => exact ih (h.readLine backward line)

theorem finish (h : Parallel first alone whole) : Parallel first alone.finish whole.finish := by
  obtain ⟨database, happend, rfl⟩ := h
  exact ⟨_, happend.assoc (alone.database.close_isAppend alone.openZone)
    (database.close_isAppend alone.openZone), rfl⟩

end Reading.Parallel

namespace Database

/-- What a file holds, as far as it can be read. -/
def ofPath (disk : Disk) (path : String) : Database :=
  (({} : Database).readPath disk path).database

def IsReadable (disk : Disk) (path : String) : Prop :=
  (({} : Database).readPath disk path).error = none

/-- Reading a file adds what it holds, or fails where it would fail at first. -/
theorem readPath_isAppend (database : Database) (disk : Disk) (path : String) :
    IsAppend database (ofPath disk path) (database.readPath disk path).database ∧
      (database.readPath disk path).error = (({} : Database).readPath disk path).error := by
  unfold ofPath readPath
  cases hread : disk.read path with
  | error error => exact ⟨.nil database, rfl⟩
  | ok bytes =>
    cases htext : Bytes.ofUtf8? bytes with
    | none =>
      simp only [htext]
      exact ⟨.nil database, trivial⟩
    | some text =>
      have hstart : Reading.Parallel database { database := {} } { database } :=
        ⟨database, .nil database, rfl⟩
      obtain ⟨after, happend, hafter⟩ := (hstart.readLines
        (Path.baseName path == backwardFile) (Text.lines text)).finish
      simp only [htext, readLines, hafter]
      exact ⟨happend, trivial⟩

structure IsConcat (first : Database) (parts : List Database) (whole : Database) : Prop where
  ruleSet : ∀ name, whole.ruleSet? name =
    parts.foldl (fun set part => RuleSet.join? set (part.ruleSet? name)) (first.ruleSet? name)
  zones : whole.zones = first.zones ++ parts.flatMap Database.zones
  goodLinks : whole.goodLinks = first.goodLinks ++ parts.flatMap Database.goodLinks
  backLinks : whole.backLinks = first.backLinks ++ parts.flatMap Database.backLinks

theorem IsConcat.nil (database : Database) : IsConcat database [] database :=
  ⟨fun _ => rfl, by simp, by simp, by simp⟩

theorem IsConcat.cons {first part between whole : Database} {parts : List Database}
    (h : IsAppend first part between) (hrest : IsConcat between parts whole) :
    IsConcat first (part :: parts) whole := by
  constructor
  · intro name
    rw [hrest.ruleSet, h.ruleSet, List.foldl_cons]
  · rw [hrest.zones, h.zones, List.flatMap_cons, List.append_assoc]
  · rw [hrest.goodLinks, h.goodLinks, List.flatMap_cons, List.append_assoc]
  · rw [hrest.backLinks, h.backLinks, List.flatMap_cons, List.append_assoc]

def names (database : Database) : List String :=
  database.zones.map Zone.name ++ database.goodLinks.map Link.name ++
    database.backLinks.map Link.name

/-- If all names are different, so are those of each kind, and back links take none of the
others. -/
theorem nodup_of_names {database : Database} (h : database.names.Nodup) :
    (database.zones.map Zone.name).Nodup ∧ (database.goodLinks.map Link.name).Nodup ∧
      (database.backLinks.map Link.name).Nodup ∧
      ∀ link ∈ database.backLinks, link.name ∉ database.zones.map Zone.name ∧
        link.name ∉ database.goodLinks.map Link.name := by
  obtain ⟨hothers, hback, hapart⟩ := List.nodup_append.mp h
  obtain ⟨hzones, hgood, -⟩ := List.nodup_append.mp hothers
  refine ⟨hzones, hgood, hback, fun link hlink => ⟨fun hzone => ?_, fun hother => ?_⟩⟩
  · exact hapart _ (List.mem_append_left _ hzone) _ (List.mem_map_of_mem hlink) rfl
  · exact hapart _ (List.mem_append_right _ hother) _ (List.mem_map_of_mem hlink) rfl

theorem IsConcat.names_perm {first whole : Database} {parts : List Database}
    (h : IsConcat first parts whole) : whole.names.Perm (first.names ++ parts.flatMap names) := by
  have hparts : (parts.flatMap names).Perm
      (parts.flatMap (fun part => part.zones.map Zone.name) ++
        parts.flatMap (fun part => part.goodLinks.map Link.name) ++
        parts.flatMap fun part => part.backLinks.map Link.name) :=
    (((List.flatMap_append_perm _ _ _).append_right _).trans
      (List.flatMap_append_perm parts _ _)).symm
  rw [List.perm_iff_count] at hparts ⊢
  intro name
  have hcount := hparts name
  simp only [names, h.zones, h.goodLinks, h.backLinks, List.map_append, List.map_flatMap,
    List.count_append] at hcount ⊢
  omega

/-- No rule set is in two of the databases. -/
def Apart (parts : List Database) : Prop :=
  parts.Pairwise fun first second =>
    ∀ name, first.ruleSet? name = none ∨ second.ruleSet? name = none

structure Alike (first second : Database) : Prop where
  ruleSet : first.ruleSet? = second.ruleSet?
  zones : first.zones.Perm second.zones
  goodLinks : first.goodLinks.Perm second.goodLinks
  backLinks : first.backLinks.Perm second.backLinks

/-- The order of the parts makes no difference if they are apart. -/
theorem IsConcat.alike {first whole other : Database} {parts others : List Database}
    (hperm : parts.Perm others) (hapart : Apart parts) (h : IsConcat first parts whole)
    (hother : IsConcat first others other) : Alike whole other := by
  constructor
  · funext name
    rw [h.ruleSet, hother.ruleSet]
    apply hperm.foldl_eq'
    intro part hpart second hsecond set
    by_cases hsame : part = second
    · rw [hsame]
    · have hsymm : Std.Symm fun first second : Database =>
          ∀ name, first.ruleSet? name = none ∨ second.ruleSet? name = none :=
        ⟨fun _ _ h name => (h name).symm⟩
      rcases hapart.forall hpart hsecond hsame name with hnone | hnone
      · rw [hnone, RuleSet.join?_none, RuleSet.join?_none]
      · rw [hnone, RuleSet.join?_none, RuleSet.join?_none]
  · rw [h.zones, hother.zones]
    exact (hperm.flatMap_right _).append_left _
  · rw [h.goodLinks, hother.goodLinks]
    exact (hperm.flatMap_right _).append_left _
  · rw [h.backLinks, hother.backLinks]
    exact (hperm.flatMap_right _).append_left _

end Database

end CivilTime.Source
