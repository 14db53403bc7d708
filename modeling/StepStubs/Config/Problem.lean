/-
What makes a configuration unusable.

The checks come in a fixed order, and the first that fails is told.
-/
import StepStubs.Config.Basic

namespace StepStubs
namespace Config

/-- A reason for which a configuration is refused. -/
inductive Problem where
  | emptyExtension
  | dottedExtension
  | emptySuffix
  | emptyModule
  | emptyPath
  deriving Repr, DecidableEq

def Problem.message : Problem → Text
  | emptyExtension => "generation.feature_extension must not be empty".toList
  | dottedExtension => "generation.feature_extension must not start with '.'".toList
  | emptySuffix => "generation.output_suffix must not be empty".toList
  | emptyModule => "generation.cucumber_module must not be empty".toList
  | emptyPath => "paths.features_dir and paths.steps_dir must not be empty".toList

/-- The first problem of a configuration. -/
def problem? (c : Config) : Option Problem :=
  if Text.allBlank c.featureExtension then some .emptyExtension
  else if c.featureExtension.head? = some '.' then some .dottedExtension
  else if Text.allBlank c.outputSuffix then some .emptySuffix
  else if Text.allBlank c.cucumberModule then some .emptyModule
  else if c.featuresDir.text = [] ∨ c.stepsDir.text = [] then some .emptyPath
  else none

end Config
end StepStubs
