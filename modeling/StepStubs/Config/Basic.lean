/-
The configuration of a project: where feature files are and where stub files go, and what
their names and contents look like.
-/
import StepStubs.Path.Basic

namespace StepStubs

structure Config where
  /-- Where feature files are looked for. -/
  featuresDir : Path
  /-- Where stub files are written. -/
  stepsDir : Path
  /-- The extension of feature files, without its dot. -/
  featureExtension : Text
  /-- What follows the stem of a feature file in the name of its stub file. -/
  outputSuffix : Text
  cucumberModule : Text
  deriving Repr, DecidableEq

namespace Config

/-- The configuration of a project that has none. -/
def default : Config :=
  ⟨.ofString "tests/features", .ofString "tests/steps", "feature".toList, ".steps.ts".toList,
   "@cucumber/cucumber".toList⟩

/-- Where the feature files of the project in `project` are. -/
def featuresIn (c : Config) (project : Path) : Path := project.join c.featuresDir

/-- Where the stub files of the project in `project` go. -/
def stepsIn (c : Config) (project : Path) : Path := project.join c.stepsDir

end Config
end StepStubs
