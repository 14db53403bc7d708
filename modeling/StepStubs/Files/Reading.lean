/-
Reading files and finding them.

A file is read as a text only if it is not larger than a limit, and without the byte order
mark that it may start with.  Files are found by their extension, each directory's entries
in the order of their names, so the result depends on the tree and not on how directories
list what they hold.
-/
import StepStubs.Files.Failure
import StepStubs.Files.System

namespace StepStubs
namespace Files
namespace FileSystem

/-- The size that the system gives for a directory. -/
def directorySize : Nat := 4096

def sizeOf : Node → Nat
  | .file content => content.size
  | .directory _ => directorySize

/-- The text without a byte order mark at its front. -/
def dropMark : Text → Text
  | '\ufeff' :: rest => rest
  | t => t

def textOf (fs : FileSystem) (p : Path) : Except Cause Text := do
  match Text.ofUtf8? (← fs.contentOf p) with
  | some t => .ok t
  | none => .error .notText

/-- The text of a file of at most `limit` bytes, without a byte order mark. -/
def readText (fs : FileSystem) (p : Path) (limit : Nat) : Except Failure Text := do
  let node ← (fs.lookup p).mapError (Failure.ofReading p)
  if sizeOf node > limit then .error (.tooLarge p (sizeOf node) limit)
  else return dropMark (← (fs.textOf p).mapError (Failure.ofReading p))

/-- The path of a location below what `p` leads to. -/
def below (p : Path) (l : Location) : Path := l.foldl (fun q name => q.join ⟨name⟩) p

/-- The paths of the files below `p` that have an extension.  Where nothing is there is no
file. -/
def filesWithExtension (fs : FileSystem) (p : Path) (extension : Text) : List Path :=
  match fs.lookup p with
  | .ok node => (node.fileLocations.map (below p)).filter fun q => q.extension? = some extension
  | .error _ => []

end FileSystem
end Files
end StepStubs
