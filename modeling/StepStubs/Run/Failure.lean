/-
Why a run fails.
-/
import StepStubs.Files.Failure

namespace StepStubs
namespace Run

/-- The reason for which a run fails. -/
inductive Failure where
  | noFeatureFiles (directory : Path) (extension : Text)
  | invalidName (path : Path)
  | files (failure : Files.Failure)
  deriving Repr, DecidableEq

def Failure.message : Failure → Text
  | noFeatureFiles directory extension =>
    "No .".toList ++ extension ++ " files found in ".toList ++ directory.text
  | invalidName p => "Invalid feature file name: ".toList ++ p.text
  | files failure => failure.message

end Run
end StepStubs
