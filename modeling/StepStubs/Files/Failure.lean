/-
What goes wrong with a file, told with its path.
-/
import StepStubs.Files.Cause
import StepStubs.Path.Basic

namespace StepStubs
namespace Files

/-- Why a file could not be read or written. -/
inductive Failure where
  | notFound (path : Path)
  | unreadable (path : Path) (cause : Cause)
  | unwritable (path : Path) (cause : Cause)
  /-- The file has `size` bytes, which is more than `limit`. -/
  | tooLarge (path : Path) (size limit : Nat)
  deriving Repr, DecidableEq

namespace Failure

def path : Failure → Path
  | notFound p => p
  | unreadable p _ => p
  | unwritable p _ => p
  | tooLarge p _ _ => p

def message : Failure → Text
  | notFound p => "file not found: ".toList ++ p.text
  | unreadable p cause =>
    "failed to read ".toList ++ p.text ++ ": ".toList ++ cause.message
  | unwritable p cause =>
    "failed to write ".toList ++ p.text ++ ": ".toList ++ cause.message
  | tooLarge p size limit =>
    "file too large: ".toList ++ p.text ++ " is ".toList ++ Text.ofNat size ++
      " bytes (max: ".toList ++ Text.ofNat limit ++ ")".toList

def ofReading (p : Path) : Cause → Failure
  | .notFound => notFound p
  | cause => unreadable p cause

end Failure
end Files
end StepStubs
