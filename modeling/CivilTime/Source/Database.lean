import CivilTime.Source.Line
import CivilTime.Source.Zone

/-!
The database that source files are read into: rule sets, zones and links. A line is read in the
light of the zone that is still open for continuation lines. A faulty line ends the reading of its
file and leaves what was read before.
-/

namespace CivilTime.Source

structure Link where
  target : String
  name : String
  deriving DecidableEq, Repr

/-- Names that are only ever other names for a zone, whichever file they stand in. -/
def Link.isForcedBack (name : String) : Bool :=
  name == "US/Pacific-New" || name == "GMT" || "Etc/".toList.isPrefixOf name.toList

structure Database where
  /-- In order of first appearance. -/
  ruleSets : List RuleSet := []
  zones : List Zone := []
  /-- Links that become zones of their own. -/
  goodLinks : List Link := []
  /-- Links that stay names for the zone they lead to. -/
  backLinks : List Link := []
  unknownLines : Nat := 0
  deriving DecidableEq, Repr

namespace Database

def ruleSet? (database : Database) (name : String) : Option RuleSet :=
  database.ruleSets.find? fun set => set.name = name

def addRule (database : Database) (rule : Rule) : Except Fault Database :=
  match database.ruleSet? rule.name with
  | none => .ok { database with ruleSets := database.ruleSets ++ [⟨rule, []⟩] }
  | some set => do
    let larger ← set.add rule
    return { database with
      ruleSets := database.ruleSets.map fun set => if set.name = rule.name then larger else set }

def addZone (database : Database) (zone : Zone) : Database :=
  { database with zones := database.zones ++ [zone] }

def close (database : Database) : Option Zone → Database
  | none => database
  | some zone => database.addZone zone

def addLink (database : Database) (backward : Bool) (link : Link) : Database :=
  if backward || Link.isForcedBack link.name then
    { database with backLinks := database.backLinks ++ [link] }
  else
    { database with goodLinks := database.goodLinks ++ [link] }

/-- What a line brings about: the database, the zone that is now open, and messages. -/
structure Effect where
  database : Database
  openZone : Option Zone := none
  messages : List Message := []

/-- Reads a line that is no continuation. Links are back links if `backward` says so. -/
def readRecord (database : Database) (backward : Bool) (text keyword : String)
    (fields : List String) : Except Fault Effect := do
  let word := Text.lower keyword
  if Keyword.rule.accepts word then
    let (rule, _) ← Rule.read fields
    return { database := ← database.addRule rule }
  else if Keyword.zone.accepts word then
    if fields.length < 4 then throw .incompleteZone
    let zone ← Zone.read fields
    return { database, openZone := some zone }
  else if Keyword.link.accepts word then
    match fields with
    | target :: name :: _ => return { database := database.addLink backward ⟨target, name⟩ }
    | _ => throw .incompleteLink
  else
    return {
      database := { database with unknownLines := database.unknownLines + 1 }
      messages := [.warning ("Unknown line: " ++ Line.trimmed text)] }

/-- Reads a continuation line, which belongs to the open zone. -/
def readContinuation (database : Database) (openZone : Option Zone) (text : String)
    (fields : List String) : Except Fault Effect := do
  match openZone with
  | none =>
    return {
      database
      messages := [.debug ("Continuation without a Zone: " ++ Line.trimmed text)] }
  | some zone => return { database, openZone := some (← zone.continueWith fields) }

end Database

/-- The reading of a file in progress. A fault ends it. -/
structure Reading where
  database : Database
  openZone : Option Zone := none
  lineCount : Nat := 0
  messages : List Message := []
  fault : Option Fault := none

namespace Reading

/-- Takes over what a line brings about. If it is faulty, what is left is `database`. -/
def proceed (reading : Reading) (text : String) (database : Database) :
    Except Fault Database.Effect → Reading
  | .ok effect =>
    { reading with
      database := effect.database
      openZone := effect.openZone
      messages := reading.messages ++ effect.messages }
  | .error fault =>
    let report := if fault.isReported then
        [.error ("Error parsing line " ++ Text.paddedNat 0 reading.lineCount ++ ": " ++
          String.ofList (Text.trimEnd text.toList))]
      else []
    { reading with
      database
      openZone := none
      messages := reading.messages ++ report
      fault := some fault }

/-- Reads one more line. A line that is no continuation closes the open zone before anything else.
-/
def readLine (backward : Bool) (reading : Reading) (text : String) : Reading :=
  if reading.fault.isSome then reading
  else
    let reading := { reading with lineCount := reading.lineCount + 1 }
    let closed := reading.database.close reading.openZone
    match Line.read text with
    | .blank => reading
    | .wordless => { reading with database := closed, openZone := none }
    | .continuation fields =>
      reading.proceed text reading.database
        (reading.database.readContinuation reading.openZone text fields)
    | .record keyword fields =>
      reading.proceed text closed (closed.readRecord backward text keyword fields)

def finish (reading : Reading) : Reading :=
  { reading with database := reading.database.close reading.openZone, openZone := none }

end Reading

namespace Database

def readLines (database : Database) (backward : Bool) (lines : List String) : Reading :=
  (lines.foldl (Reading.readLine backward) { database }).finish

def ruleCount (database : Database) : Nat :=
  database.ruleSets.foldl (fun count set => count + set.rules.length) 0

def summary (database : Database) : List Message :=
  let count (n : Nat) := Text.paddedNat 0 n
  [.info ("Summary: Rules: " ++ count database.ruleCount ++ "; RuleSets: " ++
      count database.ruleSets.length ++ "; Zones: " ++ count database.zones.length),
    .info ("Summary: Links: good=" ++ count database.goodLinks.length ++ "; back=" ++
      count database.backLinks.length ++ "; unknown lines=" ++ count database.unknownLines)]

end Database

end CivilTime.Source
