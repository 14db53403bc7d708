/-
Writing files.

A file is replaced in steps: its directory is made, a temporary file beside it is made and
filled, and the temporary file takes its place.  Until the last step the file is as it was,
so a run that breaks off never leaves a file half written.  A step that fails may leave what
the steps before it did; only a temporary file is taken away again.
-/
import StepStubs.Files.Failure
import StepStubs.Files.System

namespace StepStubs
namespace Files

/-- Something done to a file system.  What was changed before a failure stays changed. -/
abbrev Operation (ε α : Type) := ExceptT ε (StateM FileSystem) α

/-- Makes a change that is made completely or not at all. -/
def change (f : FileSystem → Except Cause FileSystem) : Operation Cause Unit := do
  match f (← get) with
  | .ok fs => set fs
  | .error cause => throw cause

/-- Does something to the file under a path, and tells a failure with the path. -/
def writing (p : Path) (operation : Operation Cause Unit) : Operation Failure Unit :=
  operation.adapt (Failure.unwritable p)

/-! ## Directories -/

/-- Makes a directory.  It is no failure if it is there already. -/
def createOrKeepDirectory (p : Path) : Operation Cause Unit := do
  match (← get).createDirectory p with
  | .ok fs => set fs
  | .error cause => if (← get).isDirectory p then pure () else throw cause

/-- Makes a directory and at most `depth` of the directories above it. -/
def createDirectoriesWithin : (depth : Nat) → Path → Operation Cause Unit
  | 0, _ => pure ()
  | depth + 1, p => do
    match (← get).createDirectory p with
    | .ok fs => set fs
    | .error .notFound =>
      match p.parent? with
      | some parent => createDirectoriesWithin depth parent
      | none => pure ()
      createOrKeepDirectory p
    | .error cause => if (← get).isDirectory p then pure () else throw cause

/-- Makes a directory and the directories above it that are missing. -/
def createDirectories (p : Path) : Operation Cause Unit :=
  createDirectoriesWithin p.components.length p

def ensureDirectory (p : Path) : Operation Failure Unit := do
  if (← get).isDirectory p then pure () else writing p (createDirectories p)

/-! ## Replacing a file -/

/-- The path of the temporary file for `p`: beside it, with a hidden name. -/
def temporaryPath (p : Path) : Path :=
  match p.fileName? with
  | some name => (p.parent?.getD ⟨[]⟩).join ⟨'.' :: name ++ ".tmp".toList⟩
  | none => p.join ⟨".tmp".toList⟩

inductive WriteStep where
  | createParents
  | createTemporary
  | fillTemporary
  | replaceTarget
  deriving Repr, DecidableEq

/-- Takes a step of giving the file `p` the content `bytes`. -/
def WriteStep.perform (p : Path) (bytes : ByteArray) : WriteStep → Operation Failure Unit
  | createParents => ensureDirectory (p.parent?.getD ⟨['.']⟩)
  | createTemporary =>
    writing (temporaryPath p) (change fun fs => fs.createFile (temporaryPath p))
  | fillTemporary =>
    writing (temporaryPath p) (change fun fs => fs.appendFile (temporaryPath p) bytes)
  | replaceTarget => writing p (change fun fs => fs.moveFile (temporaryPath p) p)

/-- Takes the temporary file for `p` away. -/
def removeTemporary (p : Path) : Operation Failure Unit := do
  match (← get).removeFile (temporaryPath p) with
  | .ok fs => set fs
  | .error _ => pure ()

/-- Gives the file `p` the content `bytes`, at once or not at all. -/
def writeAtomically (p : Path) (bytes : ByteArray) : Operation Failure Unit := do
  WriteStep.createParents.perform p bytes
  WriteStep.createTemporary.perform p bytes
  tryCatch
    (do
      WriteStep.fillTemporary.perform p bytes
      WriteStep.replaceTarget.perform p bytes)
    fun failure => do
      removeTemporary p
      throw failure

end Files
end StepStubs
