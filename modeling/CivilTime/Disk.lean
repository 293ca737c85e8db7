import CivilTime.Text.Pieces

/-!
A file system as a value: directories and files with their bytes, and a working directory. Paths
are texts, read component by component, and every operation that can fail says how.
-/

namespace CivilTime

inductive DiskError where
  | notFound
  | notDirectory
  | isDirectory
  | alreadyExists
  | nameTooLong
  /-- The path holds a null character. -/
  | nullCharacter
  deriving DecidableEq, Repr

namespace DiskError

def message : DiskError → String
  | .notFound => "no such file or directory"
  | .notDirectory => "not a directory"
  | .isDirectory => "is a directory"
  | .alreadyExists => "file exists"
  | .nameTooLong => "file name too long"
  | .nullCharacter => "embedded null byte"

/-- The error comes from the file system itself and not from the text of the path. -/
def isSystem : DiskError → Bool
  | .nullCharacter => false
  | _ => true

end DiskError

namespace Path

/-- A path split before its last component: what stands before, without slashes at its end unless
it is nothing else, and the component. -/
def split (path : List Char) : List Char × List Char :=
  let tail := (path.reverse.takeWhile (· ≠ '/')).reverse
  let head := path.take (path.length - tail.length)
  let shorter := (head.reverse.dropWhile (· = '/')).reverse
  (if shorter.isEmpty then head else shorter, tail)

def baseName (path : String) : String :=
  String.ofList (split path.toList).2

def parent (path : String) : String :=
  String.ofList (split path.toList).1

/-- A path below a directory, or the path itself if it is absolute. -/
def join (directory path : String) : String :=
  if path.toList.head? = some '/' then path
  else if directory.isEmpty || directory.toList.getLast? = some '/' then directory ++ path
  else directory ++ "/" ++ path

def components (path : String) : List String :=
  ((Text.pieces (· = '/') path.toList).filter fun piece => !piece.isEmpty).map String.ofList

def isAbsolute (path : String) : Bool :=
  path.toList.head? = some '/'

/-- The path ends with a slash, and so names a directory. -/
def endsWithSlash (path : String) : Bool :=
  path.toList.getLast? = some '/'

theorem split_length (path : List Char) :
    (split path).1.length + (split path).2.length ≤ path.length := by
  have hshorter : ∀ cs : List Char,
      ((cs.reverse.dropWhile (· = '/')).reverse).length ≤ cs.length := by
    intro cs
    simpa using (List.dropWhile_sublist (p := (· = '/')) (l := cs.reverse)).length_le
  have htail : ((path.reverse.takeWhile (· ≠ '/')).reverse).length ≤ path.length := by
    simpa using (List.takeWhile_sublist (p := (· ≠ '/')) (l := path.reverse)).length_le
  simp only [split]
  split
  · simp only [List.length_take]
    omega
  · have := hshorter (path.take (path.length -
      ((path.reverse.takeWhile (· ≠ '/')).reverse).length))
    simp only [List.length_take] at this
    omega

end Path

inductive Entry where
  | directory
  | file (bytes : List UInt8)
  deriving DecidableEq, Repr

/-- The entries by the components of their paths from the root, which is always a directory. -/
structure Disk where
  entries : List (List String × Entry) := []
  workingDirectory : List String := []
  deriving DecidableEq, Repr

namespace Disk

def entry? (disk : Disk) (place : List String) : Option Entry :=
  if place.isEmpty then some .directory
  else (disk.entries.find? fun entry => entry.1 = place).map Prod.snd

/-- Puts an entry in its place, where it replaces the one that was there. -/
def put (disk : Disk) (place : List String) (entry : Entry) : Disk :=
  { disk with
    entries := disk.entries.filter (fun other => other.1 ≠ place) ++ [(place, entry)] }

/-- Where a path leads: to an entry, or to a missing name in a directory. -/
inductive Target where
  | found (place : List String) (entry : Entry)
  | missing (place : List String)

def componentLimit : Nat := 255

/-- The length in bytes from which on a path is refused. -/
def pathLimit : Nat := 4096

def follow (disk : Disk) (directory : List String) : List String → Except DiskError Target
  | [] => .ok (.found directory .directory)
  | name :: rest =>
    if name = "." then disk.follow directory rest
    else if name = ".." then disk.follow directory.dropLast rest
    else if componentLimit < name.utf8ByteSize then .error .nameTooLong
    else
      let place := directory ++ [name]
      match disk.entry? place, rest with
      | none, [] => .ok (.missing place)
      | some entry, [] => .ok (.found place entry)
      | none, _ :: _ => .error .notFound
      | some (.file _), _ :: _ => .error .notDirectory
      | some .directory, _ :: _ => disk.follow place rest

def locate (disk : Disk) (path : String) (components : List String) :
    Except DiskError Target :=
  if path.toList.contains (Char.ofNat 0) then .error .nullCharacter
  else if path.isEmpty then .error .notFound
  else if pathLimit ≤ path.utf8ByteSize then .error .nameTooLong
  else disk.follow (if Path.isAbsolute path then [] else disk.workingDirectory) components

/-- The entry that a path leads to. With a slash at its end it has to be a directory. -/
def find (disk : Disk) (path : String) : Except DiskError Entry := do
  match ← disk.locate path (Path.components path) with
  | .missing _ => throw .notFound
  | .found _ (.file bytes) =>
    if Path.endsWithSlash path then throw .notDirectory else return .file bytes
  | .found _ .directory => return .directory

def pathExists (disk : Disk) (path : String) : Bool :=
  (disk.find path).toOption.isSome

def isDirectory (disk : Disk) (path : String) : Bool :=
  (disk.find path).toOption = some .directory

def read (disk : Disk) (path : String) : Except DiskError (List UInt8) := do
  match ← disk.find path with
  | .file bytes => return bytes
  | .directory => throw .isDirectory

/-- Where a file of the given path is to be written. With a slash at its end, or with a last
component that is no name, a path names a directory, whether it exists or not. -/
def writePlace (disk : Disk) (path : String) : Except DiskError (List String) := do
  let components := Path.components path
  if Path.endsWithSlash path && !components.isEmpty then
    match ← disk.locate path (components.dropLast ++ ["."]) with
    | _ => throw .isDirectory
  else
    match ← disk.locate path components with
    | .missing place | .found place (.file _) => return place
    | .found _ .directory => throw .isDirectory

def write (disk : Disk) (path : String) (bytes : List UInt8) : Except DiskError Disk := do
  return disk.put (← disk.writePlace path) (.file bytes)

def makeDirectory (disk : Disk) (path : String) : Except DiskError Disk := do
  match ← disk.locate path (Path.components path) with
  | .missing place => return disk.put place .directory
  | .found _ _ => throw .alreadyExists

/-- The path of the directory in which a directory is to be made, and its name. A slash at the end
does not count. -/
def splitDirectory (path : List Char) : List Char × List Char :=
  match Path.split path with
  | (head, []) => Path.split head
  | parts => parts

theorem splitDirectory_length {path : List Char} (h : (splitDirectory path).2 ≠ []) :
    (splitDirectory path).1.length < path.length := by
  have hpath := Path.split_length path
  rw [splitDirectory] at h ⊢
  split at h
  · next head heq =>
    have hhead := Path.split_length head
    have hpos := List.length_pos_iff.mpr h
    simp only [heq, List.length_nil] at hpath ⊢
    omega
  · have hpos := List.length_pos_iff.mpr h
    omega

structure Attempt where
  disk : Disk
  error : Option DiskError := none

/-- Makes one directory; with `existingAllowed`, one that is there already will do. -/
def makeLastDirectory (disk : Disk) (existingAllowed : Bool) (path : String) : Attempt :=
  match disk.makeDirectory path with
  | .ok disk => { disk }
  | .error error =>
    if error.isSystem && existingAllowed && disk.isDirectory path then { disk }
    else { disk, error := some error }

/-- Makes a directory and those that it is to be in, as far as they are missing. -/
def makeDirectories (disk : Disk) (existingAllowed : Bool) (path : List Char) : Attempt :=
  if _h : (splitDirectory path).2 ≠ [] ∧ (splitDirectory path).1 ≠ [] ∧
      !disk.pathExists (String.ofList (splitDirectory path).1) then
    match disk.makeDirectories existingAllowed (splitDirectory path).1 with
    | { disk := above, error := none } | { disk := above, error := some .alreadyExists } =>
      if (splitDirectory path).2 = ['.'] then { disk := above }
      else above.makeLastDirectory existingAllowed (String.ofList path)
    | failed => failed
  else disk.makeLastDirectory existingAllowed (String.ofList path)
  termination_by path.length
  decreasing_by
    exact splitDirectory_length _h.1

/-- The files below the directory of a path, each with its path from there, in order of these
paths. -/
def filesBelow? (disk : Disk) (path : String) : Option (List (String × List UInt8)) :=
  match disk.locate path (Path.components path) with
  | .ok (.found place .directory) =>
    let files := disk.entries.filterMap fun (other, entry) =>
      match entry with
      | .file bytes =>
        if place.isPrefixOf other then
          some ("/".intercalate (other.drop place.length), bytes)
        else none
      | .directory => none
    some (files.mergeSort fun first second => !(second.1 < first.1))
  | _ => none

/-- Writes a file and makes the directories that its path leads through, as far as they are missing.
-/
def install (disk : Disk) (path : String) (bytes : List UInt8) : Except DiskError Disk :=
  let parent := Path.parent path
  if parent.isEmpty then disk.write path bytes
  else
    match disk.makeDirectories true parent.toList with
    | { disk, error := none } => disk.write path bytes
    | { error := some error, .. } => .error error

def empty (workingDirectory : List String) : Disk :=
  { entries := (List.range workingDirectory.length).map fun n =>
      (workingDirectory.take (n + 1), .directory)
    workingDirectory }

end Disk

end CivilTime
