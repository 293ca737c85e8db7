import CivilTime.Compilation
import CivilTime.Text.Characters

/-!
The command line of the compiler: flags, which may be cut short, and the names of source files. A
flag with a value takes it after an equals sign or as the next argument. Everything after a double
hyphen is a source.
-/

namespace CivilTime.CommandLine

inductive Flag where
  | source
  | destination
  | verbose
  | usage
  deriving DecidableEq, Repr

namespace Flag

def text : Flag → String
  | .source => "-src"
  | .destination => "-dst"
  | .verbose => "-verbose"
  | .usage => "-?"

def takesValue : Flag → Bool
  | .source | .destination => true
  | .verbose | .usage => false

def all : List Flag := [.source, .destination, .verbose, .usage]

def ofText? (text : String) : Option Flag :=
  all.find? fun flag => flag.text = text

/-- The first flag that begins with the given text. -/
def ofShortened? (text : String) : Option Flag :=
  all.find? fun flag => text.toList.isPrefixOf flag.text.toList

end Flag

inductive UsageError where
  | missingValue (flag : Flag)
  | unwantedValue (flag : Flag) (value : String)
  | unrecognized (arguments : List String)
  deriving DecidableEq, Repr

def UsageError.message : UsageError → String
  | .missingValue flag => "argument " ++ flag.text ++ ": expected one argument"
  | .unwantedValue flag value =>
    "argument " ++ flag.text ++ ": ignored explicit argument " ++ Text.Quoted.encode value
  | .unrecognized arguments => "unrecognized arguments: " ++ " ".intercalate arguments

inductive Argument where
  | source (text : String)
  | separator
  | flag (flag : Flag)
  | flagWithValue (flag : Flag) (value : String)
  /-- The usage flag with more characters right after it. -/
  | usageWith (more : List Char)
  | unknown (text : String)
  deriving DecidableEq, Repr

namespace Argument

/-- A hyphen and a decimal number, with or without a fraction. A line feed at the end is ignored. -/
def isNegativeNumber (text : String) : Bool :=
  match text.toList with
  | '-' :: cs =>
    let cs := if cs.getLast? = some '\n' then cs.dropLast else cs
    match cs.dropWhile Text.isDecimal with
    | [] => !cs.isEmpty
    | '.' :: fraction => !fraction.isEmpty && fraction.all Text.isDecimal
    | _ => false
  | _ => false

def withValue? (cs : List Char) : Option Argument :=
  let name := cs.takeWhile (· ≠ '=')
  match cs.drop name.length with
  | [] => none
  | _ :: value =>
    (Flag.ofText? (String.ofList name)).map fun found =>
      .flagWithValue found (String.ofList value)

def read (text : String) : Argument :=
  match text.toList with
  | '-' :: c :: cs =>
    match Flag.ofText? text with
    | some found => .flag found
    | none =>
      match withValue? ('-' :: c :: cs) with
      | some argument => argument
      | none =>
        if c = '?' then .usageWith cs
        else
          match Flag.ofShortened? text with
          | some found => .flag found
          | none =>
            if isNegativeNumber text || (c :: cs).contains ' ' then .source text
            else .unknown text
  | _ => .source text

def readAll : List String → List Argument
  | [] => []
  | text :: rest =>
    if text = "--" then .separator :: rest.map .source else read text :: readAll rest

end Argument

/-- How far the sources have come: they make one group, and what stands after its end is left over.
-/
inductive Group where
  | ahead
  | inside
  | ended
  deriving DecidableEq, Repr

/-- A directory that a flag is there to give. -/
inductive Directory where
  /-- The flag is not used. -/
  | unset
  /-- The flag is used, but with a double hyphen for its value, which is no name. -/
  | unnamed
  | named (path : String)
  deriving DecidableEq, Repr

namespace Directory

def ofValue (value : String) : Directory :=
  if value = "--" then .unnamed else .named value

def path? : Directory → Option String
  | .unset | .unnamed => none
  | .named path => some path

def text : Directory → String
  | .unset => "None"
  | .unnamed => "[]"
  | .named path => path

end Directory

structure Settings where
  sourceDirectory : Directory := .unset
  outputDirectory : Directory := .unset
  verbose : Bool := false
  usage : Bool := false
  sources : List String := []
  group : Group := .ahead
  leftOver : List String := []
  deriving DecidableEq, Repr

namespace Settings

def endGroup (settings : Settings) : Settings :=
  { settings with group := if settings.group = .inside then .ended else settings.group }

def addLeftOver (settings : Settings) (text : String) : Settings :=
  { settings with leftOver := settings.leftOver ++ [text] }

def addSource (settings : Settings) (text : String) : Settings :=
  if settings.group = .ended then settings.addLeftOver text
  else { settings with group := .inside, sources := settings.sources ++ [text] }

/-- The double hyphen goes with the sources. -/
def addSeparator (settings : Settings) : Settings :=
  if settings.group = .ended then settings.addLeftOver "--"
  else { settings with group := .inside }

/-- Sets a flag with its value, which counts only where the flag takes one. -/
def set (settings : Settings) (flag : Flag) (value : String) : Settings :=
  match flag with
  | .source => { settings with sourceDirectory := .ofValue value }
  | .destination => { settings with outputDirectory := .ofValue value }
  | .verbose => { settings with verbose := true }
  | .usage => { settings with usage := true }

/-- Sets a flag that takes no value, and then the usage flag once for each question mark after it.
Any other character makes a value of the rest, which the last of these flags does not want. -/
def setRow (settings : Settings) (flag : Flag) : List Char → Except UsageError Settings
  | [] => .ok (settings.set flag "")
  | '?' :: cs => (settings.set flag "").setRow .usage cs
  | cs => .error (.unwantedValue flag (String.ofList cs))

def collect (settings : Settings) : List Argument → Except UsageError Settings
  | [] => .ok settings
  | .source text :: rest => (settings.addSource text).collect rest
  | .separator :: rest => settings.addSeparator.collect rest
  | .unknown text :: rest => (settings.endGroup.addLeftOver text).collect rest
  | .usageWith more :: rest => do
    (← settings.endGroup.setRow .usage more).collect rest
  | .flagWithValue flag value :: rest => do
    if flag.takesValue then (settings.endGroup.set flag value).collect rest
    else if value.isEmpty then throw (.unwantedValue flag value)
    else (← settings.endGroup.setRow flag value.toList).collect rest
  | .flag flag :: .source value :: rest =>
    if flag.takesValue then (settings.endGroup.set flag value).collect rest
    else ((settings.endGroup.set flag "").addSource value).collect rest
  | .flag flag :: rest =>
    if flag.takesValue then .error (.missingValue flag)
    else (settings.endGroup.set flag "").collect rest

def read (arguments : List String) : Except UsageError Settings := do
  let settings ← ({} : Settings).collect (Argument.readAll arguments)
  if settings.leftOver.isEmpty then return settings
  else throw (.unrecognized settings.leftOver)

/-- The paths of the sources, below the source directory if one is given that is not empty. -/
def sourcePaths (settings : Settings) : List String :=
  match settings.sourceDirectory with
  | .unset | .unnamed | .named "" => settings.sources
  | .named directory => settings.sources.map (Path.join directory)

def quotedList (names : List String) : String :=
  "[" ++ ", ".intercalate (names.map Text.Quoted.encode) ++ "]"

def messages (settings : Settings) : List Message :=
  [.info "======== TZ Compiler settings",
    .info ("Source dir: " ++ settings.sourceDirectory.text),
    .info ("Output dir: " ++ settings.outputDirectory.text),
    .info ("Sources: " ++ quotedList settings.sources)]

end Settings

def usage : String :=
  "usage: zictools-compile [-src directory] [-dst directory] [-verbose] [-?]\n" ++
  "                        [sources ...]\n" ++
  "\n" ++
  "Compile TZ Database source files.\n" ++
  "\n" ++
  "positional arguments:\n" ++
  "  sources         Source files\n" ++
  "\n" ++
  "options:\n" ++
  "  -src directory  Directory where the source files are read from\n" ++
  "  -dst directory  Directory where the generated files are written to\n" ++
  "  -verbose        Output verbosely (default false)\n" ++
  "  -?              Print this usage\n"

structure Run where
  output : String := ""
  errorOutput : String := ""
  disk : Disk
  error : Option CompilationError := none

/-- The lines of the messages that are shown. Debug messages are shown only on demand. -/
def renderMessages (verbose : Bool) (messages : List Message) : String :=
  String.join ((messages.filter fun message => verbose || message.level != .debug).map
    fun message => message.level.name ++ ":root:" ++ message.text ++ "\n")

/-- What the settings ask for. That the output directory has no name is found out only after the
sources have been read. -/
def task (settings : Settings) : Compilation Unit := do
  if settings.outputDirectory = .unnamed then
    Compilation.extract settings.sourcePaths
    throw .unnamedOutput
  else discard (Compilation.compile settings.sourcePaths)

def compile (settings : Settings) (disk : Disk) : Run :=
  let start : Session :=
    { outputDirectory := settings.outputDirectory.path?, disk, messages := settings.messages }
  match task settings start with
  | .ok _ session =>
    let messages := session.messages ++ session.summary ++
      [.info "======== Finished processing TZ Data files."]
    { errorOutput := renderMessages settings.verbose messages, disk := session.disk }
  | .error error session =>
    { errorOutput := renderMessages settings.verbose session.messages
      disk := session.disk
      error := some error }

/-- A run with the given arguments on a disk. Without sources it only prints the usage. -/
def run (arguments : List String) (disk : Disk) : Run :=
  match Settings.read arguments with
  | .error error => { output := "Error: " ++ error.message ++ "\n" ++ usage, disk }
  | .ok settings =>
    if settings.usage || settings.sources.isEmpty then { output := usage, disk }
    else compile settings disk

end CivilTime.CommandLine
