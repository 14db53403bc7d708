/-
A run over the feature files of a project.

The feature files are found once, at the start, and are read one after the other; each has
its stub file written before the next is read.  The first failure ends the run, and what
was written before it stays.
-/
import StepStubs.Config.Basic
import StepStubs.Files.Reading
import StepStubs.Path.Normal
import StepStubs.Run.Failure
import StepStubs.Run.World
import StepStubs.Stub.File

namespace StepStubs
namespace Run

/-- The most bytes that a feature file may have. -/
def maxFeatureSize : Nat := 16 * 1024 * 1024

structure FeatureFile where
  path : Path
  content : Text
  deriving Repr, DecidableEq

namespace FeatureFile

def load (p : Path) : Action Failure FeatureFile :=
  askFiles fun fs => do
    return ⟨p, ← (fs.readText p maxFeatureSize).mapError .files⟩

/-- The file name of a path without its extension. -/
def stemOf (p : Path) : Except Failure Text :=
  match p.stem? with
  | some stem => .ok stem
  | none => .error (.invalidName p)

end FeatureFile

/-- The feature files below a directory, in order.  A directory that is missing has none. -/
def featuresBelow (root : Path) (extension : Text) : Action Failure (List Path) := do
  let fs := (← get).files
  if fs.isDirectory root then
    let found := fs.filesWithExtension root extension
    log (.discovered root found.length)
    return found
  else
    log (.missingDirectory root)
    return []

structure Project where
  root : Path
  config : Config
  deriving Repr, DecidableEq

namespace Project

/-- Where the feature files are. -/
def featuresDir (p : Project) : Path := p.config.featuresIn p.root

/-- Where the stub files go. -/
def stepsDir (p : Project) : Path := p.config.stepsIn p.root

def relative (p : Project) (q : Path) : Text := q.displayRelative p.root

def outputPath (p : Project) (feature : Path) : Except Failure Path := do
  let stem ← FeatureFile.stemOf feature
  return p.stepsDir.join ⟨stem ++ p.config.outputSuffix⟩

/-- Finds the feature files.  It is a failure if there are none. -/
def discover (p : Project) : Action Failure (List Path) := do
  let found ← featuresBelow p.featuresDir p.config.featureExtension
  if found.isEmpty then throw (.noFeatureFiles p.featuresDir p.config.featureExtension)
  else
    log (.found p.featuresDir found.length)
    return found

def prepare (p : Project) : Action Failure Unit :=
  onFiles ((Files.ensureDirectory p.stepsDir).adapt .files)

def logExtraction (e : Feature.Extraction) : Action Failure Unit := do
  e.skipped.forM fun line => log (.skippedLine line.line line.text)
  if e.endsInDocString then log .openDocString

def process (p : Project) (path : Path) : Action Failure Report := do
  let ⟨path, content⟩ ← FeatureFile.load path
  let source := p.relative path
  let extraction := Feature.extract content
  logExtraction extraction
  let compiled := extraction.steps.map CompiledStep.ofStep
  let steps := StepSet.ofList compiled
  log (.compiled source compiled.length steps.size)
  let output ← MonadExcept.ofExcept (p.outputPath path)
  let stubs := Stub.file steps compiled.length source p.config.cucumberModule
  onFiles ((Files.writeAtomically output (Text.utf8 stubs)).adapt .files)
  log (.generated source (p.relative output))
  return .ofSteps source (p.relative output) compiled.length extraction.skipped.length steps

/-- Records a report, and logs it if its stub file had been written before. -/
def record (s : Summary) (r : Report) : Action Failure Summary := do
  if s.hasOutput r.output then log (.overwriting r.output r.source)
  return s.record r

def run (p : Project) : Action Failure Summary := do
  let features ← p.discover
  p.prepare
  features.foldlM (fun s path => do record s (← p.process path)) .empty

end Project
end Run
end StepStubs
