import CivilTime.Bytes.Field
import CivilTime.Disk
import CivilTime.Source.Database
import CivilTime.Text.Pieces

/-!
Source files: they are read from a disk as UTF-8 text. In the file for deprecated names, all links
are back links.
-/

namespace CivilTime.Source

inductive FileError where
  | disk (error : DiskError)
  | malformedText
  | fault (fault : Fault)
  deriving DecidableEq, Repr

structure FileReading where
  database : Database
  messages : List Message
  error : Option FileError := none

def backwardFile : String := "backward"

def Database.readPath (database : Database) (disk : Disk) (path : String) : FileReading :=
  let start := .info ("Processing " ++ path)
  match disk.read path with
  | .error error => { database, messages := [start], error := some (.disk error) }
  | .ok bytes =>
    match Bytes.ofUtf8? bytes with
    | none => { database, messages := [start], error := some .malformedText }
    | some text =>
      let reading := database.readLines (Path.baseName path == backwardFile) (Text.lines text)
      { database := reading.database
        messages := start :: reading.messages
        error := reading.fault.map .fault }

end CivilTime.Source
