/-
Errors as they are shown at the command line.

An error has a code, an exit status, a message and often a hint.
-/
import StepStubs.Config.File
import StepStubs.Run.Failure

namespace StepStubs
namespace Command

inductive Error where
  | noFeatureFiles (directory : Path) (extension : Text)
  | config (failure : Config.Failure)
  | files (failure : Files.Failure)
  /-- An error of input or output that concerns no path in particular. -/
  | io (message : Text)
  | other (message : Text)
  deriving Repr, DecidableEq

namespace Error

def ofRun : Run.Failure → Error
  | .noFeatureFiles directory extension => noFeatureFiles directory extension
  | .invalidName p => io (Run.Failure.invalidName p).message
  | .files failure => files failure

def code : Error → Text
  | noFeatureFiles _ _ => "E001".toList
  | config _ => "E002".toList
  | files _ => "E003".toList
  | io _ => "E003".toList
  | other _ => "E999".toList

/-- The exit status of the program after the error. -/
def status : Error → Nat
  | config _ => 2
  | _ => 1

def message : Error → Text
  | noFeatureFiles _ extension => "No .".toList ++ extension ++ " files found!".toList
  | config failure => failure.message
  | files failure => failure.message
  | io m => m
  | other m => m

def configHint : Config.Failure → Text
  | .notFound _ => "check the --config path or STEPGEN_CONFIG".toList
  | .unsetVariable name =>
    "set ".toList ++ name ++ " or give it a default with $\x7b".toList ++ name ++
      ":-value\x7d".toList
  | _ => "check .stepgen/config.yaml".toList

def hint? : Error → Option Text
  | noFeatureFiles directory _ =>
    some ("searched ".toList ++ directory.text ++
      "; set paths.features_dir in .stepgen/config.yaml or pass --project-dir".toList)
  | config failure => some (configHint failure)
  | files failure => some ("path: ".toList ++ failure.path.text)
  | io _ => none
  | other _ => none

def render (e : Error) : Text :=
  "error[".toList ++ e.code ++ "]: ".toList ++ e.message ++
    match e.hint? with
    | some hint => "\n  hint: ".toList ++ hint
    | none => []

end Error
end Command
end StepStubs
