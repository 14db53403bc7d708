/-
A step with its pattern.

Two steps of a file share a definition when they agree on phase and pattern; that pair is
the step's key.
-/
import StepStubs.Expression.Compile
import StepStubs.Feature.Extraction

namespace StepStubs

/-- A step after its text was compiled. -/
structure CompiledStep where
  phase : Phase
  text : Text
  pattern : Text
  parameters : List Parameter
  hasTable : Bool
  line : Nat
  deriving Repr, DecidableEq

/-- What two steps have in common when they share a definition. -/
structure StepKey where
  phase : Phase
  pattern : Text
  deriving Repr, DecidableEq

namespace CompiledStep

def key (s : CompiledStep) : StepKey := ⟨s.phase, s.pattern⟩

def ofStep (s : Feature.Step) : CompiledStep :=
  let pattern := Expression.compile s.text
  ⟨s.phase, s.text, pattern.text, pattern.parameters, s.hasTable, s.line⟩

end CompiledStep

/-- The steps of a feature file, compiled, in order. -/
def Feature.compiledSteps (content : Text) : List CompiledStep :=
  (Feature.extract content).steps.map CompiledStep.ofStep

end StepStubs
