import CivilTime.AliasIndex
import CivilTime.LinkResolution
import CivilTime.Source.File
import CivilTime.Verification

/-!
A compilation reads source files, compiles and verifies their zones, resolves the links and, if it
has an output directory, writes a file for each zone and the index of all names. Everything that it
has done up to a failure stays in its state.
-/

namespace CivilTime

inductive CompilationError where
  | source (error : Source.FileError)
  | unresolved (missing : Source.Obstacle)
  | verification (failure : Verification.Failure)
  | disk (error : DiskError)
  /-- An output directory is asked for, but not named. -/
  | unnamedOutput
  | encode (error : Bytes.EncodeError)
  | decode (error : Bytes.DecodeError)
  deriving DecidableEq, Repr

def CompilationError.message : CompilationError → String
  | .source (.disk error) | .disk error => error.message
  | .source .malformedText => "source file is not UTF-8"
  | .source (.fault fault) => fault.message
  | .unresolved missing => missing.message
  | .verification .refused => "the zone refuses to answer"
  | .verification .endless => "the transitions do not come to an end"
  | .unnamedOutput => "the output directory has no name"
  | .encode error => error.message
  | .decode error => error.message

structure Session where
  outputDirectory : Option String
  disk : Disk
  database : Source.Database := {}
  verifier : Verifier := {}
  zonesWritten : Nat := 0
  goodLinksRevived : Nat := 0
  backLinksResolved : Nat := 0
  linksDropped : Nat := 0
  messages : List Message := []

/-- A step of a compilation, which keeps the state also when it fails. -/
abbrev Compilation := EStateM CompilationError Session

namespace Compilation

def report (messages : List Message) : Compilation Unit :=
  modify fun session => { session with messages := session.messages ++ messages }

def check {ε α : Type} (wrap : ε → CompilationError) : Except ε α → Compilation α
  | .ok a => pure a
  | .error e => throw (wrap e)

def readSource (path : String) : Compilation Unit := do
  let session ← get
  let reading := session.database.readPath session.disk path
  set { session with
    database := reading.database
    messages := session.messages ++ reading.messages }
  match reading.error with
  | none => pure ()
  | some error => throw (.source error)

/-- Reads source files in order. All of them are read before anything is resolved, since a zone may
name rules of a later file. -/
def readSources : List String → Compilation Unit
  | [] => pure ()
  | path :: rest => do
    readSource path
    readSources rest

def writeFile (path : String) (bytes : List UInt8) : Compilation Unit := do
  let session ← get
  let disk ← check .disk (session.disk.write path bytes)
  set { session with disk }

def makeDirectories (existingAllowed : Bool) (path : String) : Compilation Unit := do
  let session ← get
  let attempt := session.disk.makeDirectories existingAllowed path.toList
  set { session with disk := attempt.disk }
  match attempt.error with
  | none => pure ()
  | some error => throw (.disk error)

/-- Makes the output directory if it is missing; something else in its place is an error. -/
def prepareDirectory (path : String) : Compilation Unit := do
  unless (← get).disk.pathExists path do makeDirectories false path
  unless (← get).disk.isDirectory path do throw (.disk .notDirectory)

def resolve (zone : Source.Zone) (id : String) : Compilation Draft := do
  let database := (← get).database
  let resolution := zone.resolve database.ruleSet?
  report resolution.messages
  match resolution.missing with
  | none => return .ofDirectives resolution.directives
  | some missing =>
    report [.info ("*** Error processing " ++ id)]
    throw (.unresolved missing)

def build (draft : Draft) (id : String) : Compilation TimeZone := do
  let (zone, messages) := draft.build id
  report messages
  return zone

def verify (zone : TimeZone) : Compilation Bool := do
  let session ← get
  let outcome := session.verifier.verify zone.queries (some zone.id)
  set { session with
    verifier := outcome.verifier
    messages := session.messages ++ outcome.messages }
  check .verification outcome.verdict

/-- Writes the file of a zone below a directory and reads it again. The file is created before its
content is known, and so stays behind empty if the zone cannot be written. -/
def writeZoneBelow (directory : String) (draft : Draft) (zone : TimeZone) : Compilation Unit := do
  report [.debug ("Writing " ++ zone.id)]
  let path := Path.join directory zone.id
  makeDirectories true (Path.parent path)
  writeFile path []
  let written ← build draft zone.id
  let bytes ← check .encode written.encode
  writeFile path bytes
  modify fun session => { session with zonesWritten := session.zonesWritten + 1 }
  let stored ← check .disk ((← get).disk.read path)
  let reread ← check .decode (TimeZone.decode stored zone.id)
  unless reread = zone do
    report [.error ("*e* Error in " ++ zone.id ++ ": Did not read properly from file")]

def writeZone (draft : Draft) (zone : TimeZone) : Compilation Unit := do
  match (← get).outputDirectory with
  | none => pure ()
  | some directory => writeZoneBelow directory draft zone

/-- The compiled zones, and the zones of the source that they come from. -/
structure Compiled where
  zones : NameMap TimeZone := []
  sources : NameMap Source.Zone := []

/-- Compiles zones in order. Only those that pass verification are kept and written. -/
def compileZones (compiled : Compiled) : List Source.Zone → Compilation Compiled
  | [] => return compiled
  | zone :: rest => do
    let draft ← resolve zone zone.name
    let timeZone ← build draft zone.name
    if ← verify timeZone then
      writeZone draft timeZone
      compileZones
        { zones := compiled.zones.insert zone.name timeZone
          sources := compiled.sources.insert zone.name zone } rest
    else compileZones compiled rest

def dropLinks (messages : List Message) : Compilation Unit := do
  modify fun session =>
    { session with linksDropped := session.linksDropped + messages.length }
  report messages

/-- Compiles good links as zones of their own, from the source of the zones they lead to. -/
def reviveLinks (sources : NameMap Source.Zone) (zones : NameMap TimeZone) :
    List Source.Link → Compilation (NameMap TimeZone)
  | [] => return zones
  | link :: rest => do
    match sources.find? link.target with
    | none =>
      dropLinks [.warning ("Cannot find source zone '" ++ link.target ++ "' to link alias '" ++
        link.name ++ "' to")]
      reviveLinks sources zones rest
    | some source =>
      let draft ← resolve source link.name
      let timeZone ← build draft link.name
      if ← verify timeZone then
        writeZone draft timeZone
        modify fun session =>
          { session with goodLinksRevived := session.goodLinksRevived + 1 }
        report [.debug ("Good link: " ++ link.name ++ " -> " ++ link.target ++ " revived")]
        reviveLinks sources (zones.insert link.name timeZone) rest
      else
        modify fun session => { session with linksDropped := session.linksDropped + 1 }
        reviveLinks sources zones rest

/-- Resolves back links and leaves out those that lead nowhere. -/
def resolveLinks (zones : NameMap TimeZone) (links : List Source.Link) :
    Compilation (NameMap TimeZone) := do
  let pass := LinkResolution.resolve zones links
  modify fun session =>
    { session with backLinksResolved := session.backLinksResolved + pass.resolved }
  report pass.messages
  dropLinks (pass.unresolved.map LinkResolution.dropped)
  return pass.zones

def indexFile : String := "ZoneInfoMap"

def writeIndex (directory : String) (zones : NameMap TimeZone) : Compilation Unit := do
  report [.info "======== Writing ZoneInfoMap"]
  let path := Path.join directory indexFile
  writeFile path []
  let (sorted, messages) := AliasIndex.sort zones
  report messages
  let bytes ← check .encode (AliasIndex.encode (sorted.map fun (name, zone) => (name, zone.id)))
  writeFile path bytes

/-- Reads the sources, in addition to what has been read before, and sums up. -/
def extract (sources : List String) : Compilation Unit := do
  report [.info "======== Extracting TZ Data files"]
  readSources sources
  report (← get).database.summary

/-- Reads the sources and compiles everything. The answer is every name with its zone, in order of
the names. -/
def compile (sources : List String) : Compilation (List (String × TimeZone)) := do
  extract sources
  let output := (← get).outputDirectory
  match output with
  | none => pure ()
  | some directory => prepareDirectory directory
  report [.info "======== Compiling zones"]
  let compiled ← compileZones {} (← get).database.zones
  report [.info "======== Resolving links"]
  let zones ← reviveLinks compiled.sources compiled.zones (← get).database.goodLinks
  let zones ← resolveLinks zones (← get).database.backLinks
  match output with
  | none => pure ()
  | some directory => writeIndex directory zones
  return AliasIndex.sortByKey zones

end Compilation

def Session.summary (session : Session) : List Message :=
  let count (n : Nat) := Text.paddedNat 0 n
  session.verifier.summary ++
    [.info ("Summary: Links: revived=" ++ count session.goodLinksRevived ++ "; aliased=" ++
        count session.backLinksResolved ++ "; dropped=" ++ count session.linksDropped),
      .info ("Summary: Zone files written: " ++ count session.zonesWritten)]

end CivilTime
