/-
The stub file of a feature file: an import line, two comment lines that say where the
stubs come from and how many steps there are, and the stubs, each with an empty line
after it.  The stubs of the context come first, then those of the action, then those of
the outcome.
-/
import StepStubs.Stub.Definition
import StepStubs.Step.Set

namespace StepStubs
namespace Stub

/-- What stands above the stubs: `module` is where the step functions are imported from,
`source` the feature file, `total` the number of its steps and `unique` of its stubs. -/
def header (module source : Text) (total unique : Nat) : Text :=
  "import \x7b Given, When, Then, DataTable \x7d from '".toList ++ module ++
    "';\n\n\n// Generated from: ".toList ++ source ++
    "\n// Total steps: ".toList ++ Text.ofNat total ++
    " (".toList ++ Text.ofNat unique ++ " unique)\n\n\n".toList

/-- The steps of a set in the order of their stubs. -/
def inFileOrder (steps : StepSet) : List CompiledStep := Phase.all.flatMap steps.ofPhase

def file (steps : StepSet) (total : Nat) (source module : Text) : Text :=
  header module source total steps.size ++
    (inFileOrder steps).flatMap fun s => definition s ++ "\n".toList

def ofFeature (content source module : Text) : Text :=
  let steps := Feature.compiledSteps content
  file (StepSet.ofList steps) steps.length source module

end Stub
end StepStubs
