/-
Why the system refuses an operation on a file.
-/
import StepStubs.Text.Basic

namespace StepStubs
namespace Files

/-- The reason for which a file operation fails. -/
inductive Cause where
  | notFound
  /-- Something is there already. -/
  | taken
  /-- A path goes on behind something that is no directory. -/
  | notDirectory
  /-- A directory is where a file should be. -/
  | isDirectory
  /-- The path names a place that cannot be replaced. -/
  | busy
  /-- A name or a whole path is too long. -/
  | nameTooLong
  /-- A file would have more bytes than a file can have. -/
  | fileTooLarge
  | nullCharacter
  /-- The bytes of the file are no text. -/
  | notText
  | other (message : Text)
  deriving Repr, DecidableEq

def Cause.message : Cause → Text
  | notFound => "No such file or directory (os error 2)".toList
  | taken => "File exists (os error 17)".toList
  | notDirectory => "Not a directory (os error 20)".toList
  | isDirectory => "Is a directory (os error 21)".toList
  | busy => "Device or resource busy (os error 16)".toList
  | nameTooLong => "File name too long (os error 36)".toList
  | fileTooLarge => "File too large (os error 27)".toList
  | nullCharacter => "file name contained an unexpected NUL byte".toList
  | notText => "stream did not contain valid UTF-8".toList
  | other message => message

end Files
end StepStubs
