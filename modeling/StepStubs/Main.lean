/-
The program as it runs.

The pure program works on a tree of files.  Here the part of the disk that a run can look at
is read into such a tree, the program runs on it, and what it changed is written to the
disk.  A file is written beside its place and then moved there, as the program means it.
-/
import StepStubs.Command.Program
import StepStubs.Files.Changes
import StepStubs.Log.Line

namespace StepStubs
namespace Command

open Files (FileSystem Location Name Node)

/-! ## The environment -/

/-- The variables that the program looks at, whatever the configuration refers to. -/
def ownVariables : List Text :=
  ["STEPGEN_PROJECT_DIR".toList, "STEPGEN_CONFIG".toList, "STEPGEN_LOG_LEVEL".toList,
   "STEPGEN_LOG_FORMAT".toList, "STEPGEN_LOG_FILE".toList, "STEPGEN_LOG_SOURCE".toList,
   "RUST_LOG".toList]

/-- The variables with the given names, as far as they are set. -/
def readVariables (names : List Text) : IO Environment := do
  let found ← names.filterMapM fun name => do
    return (← IO.getEnv (String.ofList name)).map fun value => (name, value.toList)
  return ⟨found⟩

/-! ## Reading the disk -/

def locationOf (here : Location) (p : Path) : Location :=
  let absolute := (Path.ofComponents (.root :: here.map .normal)).join p
  absolute.normalize.components.filterMap fun
    | .normal name => some name
    | _ => none

def entryAt (l : Location) : IO.FS.DirEntry := ⟨"/", String.ofList (Text.join ['/'] l)⟩

/-- Reads what stands at an entry.  A file whose name `isRead` refuses is taken to be
empty. -/
partial def readNode (isRead : Name → Bool) (e : IO.FS.DirEntry) : IO Node := do
  if ← e.path.isDir then
    let entries ← e.path.readDir
    return .directory (← entries.toList.mapM fun f => do
      return (f.fileName.toList, ← readNode isRead f))
  else if isRead e.fileName.toList then return .file (← IO.FS.readBinFile e.path)
  else return .file .empty

/-- Reads what stands at an entry, without what is in it. -/
def readKind (e : IO.FS.DirEntry) : IO Node := do
  if ← e.path.isDir then return .emptyDirectory else return .file .empty

/-- Adds to a tree what the disk has at a location and on the way there. -/
def observe (isRead : Name → Bool) (fs : FileSystem) (l : Location) : IO FileSystem := do
  let mut seen := fs
  for n in List.range l.length do
    let here := l.take n
    if (seen.at? here).isNone && (← (entryAt here).path.pathExists) then
      seen := seen.put here (← readKind (entryAt here))
  if ← (entryAt l).path.pathExists then
    seen := seen.put l (← readNode isRead (entryAt l))
  return seen

def hasExtension (extension : Text) (name : Name) : Bool :=
  (Path.mk name).extension? = some extension

/-- Reads what a run for the arguments can look at: the directories of the configuration,
the configuration, and the place of the log. -/
def readFiles (a : Arguments) (env : Environment) (start : FileSystem) : IO FileSystem := do
  let locate := locationOf start.workingDirectory
  let configuration := locate (a.source start).path
  let withConfig ← observe (fun _ => true) start configuration
  match Config.load withConfig env (a.source start) with
  | .error _ => return withConfig
  | .ok config =>
    let isFeature := hasExtension config.featureExtension
    let project := a.project start
    let places := [config.featuresIn project, config.stepsIn project].map locate
    let log := (Log.Settings.ofEnvironment env).file.toList.map locate
    let seen ← (places ++ log).foldlM (observe isFeature) start
    observe (fun _ => true) seen configuration

/-- The variables that the configuration refers to, and those that the program looks at. -/
def readEnvironment (a : Arguments) (start : FileSystem) : IO Environment := do
  let source := (a.source start).path
  let seen ← observe (fun _ => true) start (locationOf start.workingDirectory source)
  match seen.textOf source with
  | .ok t => readVariables (ownVariables ++ (Config.references t).map (·.name))
  | .error _ => readVariables ownVariables

/-! ## Writing to the disk -/

def writeEntry (l : Location) (content : Option ByteArray) : IO Unit := do
  let p : Path := .ofComponents (.root :: l.map .normal)
  match content with
  | none => IO.FS.createDirAll (String.ofList p.text)
  | some bytes =>
    let temporary := String.ofList (Files.temporaryPath p).text
    IO.FS.writeBinFile temporary bytes
    IO.FS.rename temporary (String.ofList p.text)

/-- Logs to the standard error, and to a file if the settings name one. -/
def writeLog (settings : Log.Settings) (events : List Log.Event) : IO Unit := do
  let lines := String.ofList (events.flatMap (Log.Event.line settings.format))
  IO.eprint lines
  if let some p := settings.file then
    IO.FS.withFile (String.ofList p.text) .append fun file => file.putStr lines

def tell (before : FileSystem) (o : Outcome) : IO UInt32 := do
  (before.changes o.files).forM fun (l, content) => writeEntry l content
  IO.print (String.ofList o.output)
  if let some settings := o.logging then writeLog settings o.events
  IO.eprint (String.ofList o.complaint)
  return o.ending.status.toUInt32

/-- Runs the program for the arguments after its name. -/
def start (args : List Text) : IO UInt32 := do
  let directory : Path := ⟨(← IO.currentDir).toString.toList⟩
  let empty : FileSystem := ⟨.emptyDirectory, locationOf [] directory⟩
  let own ← readVariables ownVariables
  match Arguments.ofList args own with
  | .error _ => tell empty (run args own empty)
  | .ok a =>
    let env ← readEnvironment a empty
    let files ← readFiles a env empty
    tell files (run args env files)

end Command
end StepStubs

def main (args : List String) : IO UInt32 :=
  StepStubs.Command.start (args.map String.toList)
