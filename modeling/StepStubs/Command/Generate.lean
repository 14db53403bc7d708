/-
A run that says how far it has come.

`generate` does the same to the files as a run that says nothing, in the same order; in
between it says what it is about to do and what it has done.
-/
import StepStubs.Command.Error
import StepStubs.Run.Project

namespace StepStubs
namespace Command

open Run (Action Project Summary say)

variable {α : Type}

/-- A part of a run, with its failures as errors of the command line. -/
def part (action : Action Run.Failure α) : Action Error α := action.adapt .ofRun

/-- Writes the stub file of the feature file `path` and records it, saying so. -/
def generateOne (speaks : Bool) (p : Project) (s : Summary) (path : Path) :
    Action Error Summary := do
  say speaks (.reading (p.relative path))
  let report ← part (p.process path)
  say speaks (.generated report)
  part (Project.record s report)

def generate (speaks : Bool) (p : Project) : Action Error Summary := do
  say speaks (.searching p.featuresDir p.config.featureExtension)
  let features ← part p.discover
  say speaks (.found (features.map p.relative))
  part p.prepare
  features.foldlM (generateOne speaks p) .empty

end Command
end StepStubs
