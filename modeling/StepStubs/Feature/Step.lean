/-
A step as a feature file has it.

A colon at the end of a step line announces a data table below it.  The colon is no part
of the step's text.
-/
import StepStubs.Step.Phase

namespace StepStubs
namespace Feature

structure Step where
  phase : Phase
  lead : LeadWord
  /-- The text after the leading word, trimmed, without the colon of a table. -/
  text : Text
  hasTable : Bool
  line : Nat
  deriving Repr, DecidableEq

/-- The step of the line `line` that starts with `lead`, goes on with `rest`, and follows
a step of the phase `previous`. -/
def Step.ofLine (previous : Phase) (lead : LeadWord) (rest : Text) (line : Nat) : Step :=
  let text := Text.trim rest
  match Text.beforeLast? ':' text with
  | some announced => ⟨lead.resolve previous, lead, Text.trimEnd announced, true, line⟩
  | none => ⟨lead.resolve previous, lead, text, false, line⟩

end Feature
end StepStubs
