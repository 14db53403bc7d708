/-
The program as a whole.

The arguments are read, the log is opened, the configuration is loaded, the stub files are
written and the summary is told.  Everything is a function of the arguments, the
environment and the files; the outcome says what to print, with which status to end, and
what the files are afterwards.
-/
import StepStubs.Command.Arguments
import StepStubs.Command.Generate
import StepStubs.Command.Help
import StepStubs.Config.File
import StepStubs.Json.Pretty
import StepStubs.Log.Settings

namespace StepStubs
namespace Command

open Files (FileSystem)
open Run (Action Project Summary World log say)

/-! ## A run for given arguments -/

/-- The path of the directory in which the program was started. -/
def startDirectory (fs : FileSystem) : Path :=
  .ofComponents (.root :: fs.workingDirectory.map .normal)

def Arguments.project (a : Arguments) (fs : FileSystem) : Path :=
  a.projectDir.getD (startDirectory fs)

/-- Where the configuration is. -/
def Arguments.source (a : Arguments) (fs : FileSystem) : Config.Source :=
  match a.config with
  | some p => .file p
  | none => .project (a.project fs)

def loadConfig (a : Arguments) (env : Environment) : Action Error Config := do
  let source := a.source (← get).files
  log (.loadingConfig source.path)
  Run.askFiles fun fs => (Config.load fs env source).mapError .config

def execute (a : Arguments) (env : Environment) : Action Error Summary := do
  let root := a.project (← get).files
  let config ← loadConfig a env
  let summary ← generate a.showsProgress ⟨root, config⟩
  say a.showsProgress (.finished summary)
  log (.finished summary.filesProcessed summary.distinctPatterns)
  return summary

/-! ## The log -/

/-- The settings of the log for given arguments.  A request for more or less output counts
more than the environment. -/
def logSettings (a : Arguments) (env : Environment) : Log.Settings :=
  let settings := Log.Settings.ofEnvironment env
  if 0 < a.verbose ∨ a.quiet = true then { settings with level := a.level } else settings

/-- Opens the file that is logged to, if there is one. -/
def openLog (settings : Log.Settings) (fs : FileSystem) : Except Files.Cause FileSystem :=
  match settings.file with
  | some p => fs.appendFile p .empty
  | none => .ok fs

/-! ## The program -/

inductive Ending where
  | refused (refusal : Refusal)
  | failed (error : Error)
  | finished (summary : Summary)
  deriving Repr, DecidableEq

def Ending.status : Ending → Nat
  | refused refusal => refusal.status
  | failed error => error.status
  | finished _ => 0

structure Outcome where
  ending : Ending
  output : Text
  complaint : Text
  files : FileSystem
  /-- The settings of the log, unless it could not be opened. -/
  logging : Option Log.Settings
  events : List Log.Event

/-- What the program prints after what it said, in a given format. -/
def resultText (format : OutputFormat) : Except Error Summary → Text
  | .ok summary =>
    match format with
    | .json => summary.toJson.pretty ++ ['\n']
    | .text => []
  | .error _ => []

def logComplaint (cause : Files.Cause) : Text :=
  "warning: failed to initialize logging: failed to open log file: ".toList ++
    cause.message ++ ['\n']

def resultComplaint : Except Error Summary → Text
  | .ok _ => []
  | .error error => error.render ++ ['\n']

def Ending.ofResult : Except Error Summary → Ending
  | .ok summary => finished summary
  | .error error => failed error

/-- What is logged about a run, the first event first. -/
def eventsOf (result : Except Error Summary) (w : World) : List Log.Event :=
  match result with
  | .ok _ => w.events.reverse
  | .error error => w.events.reverse ++ [.failed error.code error.message]

def runFor (a : Arguments) (env : Environment) (fs : FileSystem) : Outcome :=
  let settings := logSettings a env
  let (files, logging, warning) :=
    match openLog settings fs with
    | .ok opened => (opened, some settings, [])
    | .error cause => (fs, none, logComplaint cause)
  let (result, w) := (execute a env).run (World.start files)
  { ending := .ofResult result
    output := (w.said.reverse.flatMap Run.Progress.text) ++ resultText a.format result
    complaint := warning ++ resultComplaint result
    files := w.files
    logging := logging
    events := (eventsOf result w).filter fun e => logging.any fun s => s.logs e.level }

def run (args : List Text) (env : Environment) (fs : FileSystem) : Outcome :=
  match Arguments.ofList args env with
  | .ok a => runFor a env fs
  | .error refusal =>
    { ending := .refused refusal
      output := refusal.answer env
      complaint := refusal.complaint
      files := fs
      logging := none
      events := [] }

end Command
end StepStubs
