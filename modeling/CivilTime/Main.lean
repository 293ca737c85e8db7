import CivilTime.CommandLine

/-!
The compiler as a program. The sources and the place of the output are looked up first, the run
itself is a function of what was found, and what it leaves behind is written last.
-/

namespace CivilTime.Main

/-- The disk with the file or the directory that is found at a path. -/
def discover (disk : Disk) (path : String) : IO Disk := do
  try
    if ← (← IO.FS.realPath path).isDir then
      return (disk.makeDirectories true path.toList).disk
    else
      let bytes ← IO.FS.readBinFile path
      return (disk.install path bytes.data.toList).toOption.getD disk
  catch _ => return disk

/-- The disk as far as the settings ask for it. -/
def discoverAll (settings : CommandLine.Settings) : IO Disk := do
  let start := Disk.empty (Path.components (← IO.currentDir).toString)
  let paths := settings.sourcePaths ++ settings.outputDirectory.path?.toList
  (paths.filter fun path => !path.isEmpty).foldlM discover start

def store (directory : String) (disk : Disk) : IO Unit := do
  for (name, bytes) in (disk.filesBelow? directory).getD [] do
    let path := Path.join directory name
    IO.FS.createDirAll (Path.parent path)
    IO.FS.writeBinFile path ⟨bytes.toArray⟩

end CivilTime.Main

def main (arguments : List String) : IO UInt32 := do
  let disk ← match CivilTime.CommandLine.Settings.read arguments with
    | .ok settings => CivilTime.Main.discoverAll settings
    | .error _ => pure {}
  let run := CivilTime.CommandLine.run arguments disk
  (← IO.getStdout).putStr run.output
  (← IO.getStderr).putStr run.errorOutput
  match CivilTime.CommandLine.Settings.read arguments with
  | .ok { outputDirectory := .named directory, .. } =>
    CivilTime.Main.store directory run.disk
  | _ => pure ()
  match run.error with
  | none => return 0
  | some error =>
    (← IO.getStderr).putStrLn error.message
    return 1
