/-
Compiled steps as JSON.

A stored step is an object with six members.  Each has to be there once and has to be of
its type; other members are passed over.  An array of the six values in their order stands
for the same step.
-/
import StepStubs.Json.Read
import StepStubs.Step.Compiled

namespace StepStubs
namespace CompiledStep

def phaseOfJson? (v : Json) : Option Phase := v.choice?.bind Phase.ofWord?

def parametersOfJson? (v : Json) : Option (List Parameter) := do
  (← v.elements?).mapM fun e => e.choice?.bind Parameter.ofTypeName?

/-- The largest number of a line.  It fits into 64 bits. -/
def maxLine : Nat := 0xFFFFFFFFFFFFFFFF

def lineOfJson? (v : Json) : Option Nat := v.natural?.filter fun n => n ≤ maxLine

def ofValues? (phase text pattern parameters hasTable line : Json) : Option CompiledStep := do
  return ⟨← phaseOfJson? phase, ← text.string?, ← pattern.string?,
    ← parametersOfJson? parameters, ← hasTable.bool?, ← lineOfJson? line⟩

def ofJson? : Json → Option CompiledStep
  | .object ms => do
    ofValues? (← Json.onlyMember? "keyword".toList ms) (← Json.onlyMember? "raw_text".toList ms)
      (← Json.onlyMember? "pattern".toList ms) (← Json.onlyMember? "parameters".toList ms)
      (← Json.onlyMember? "has_table".toList ms) (← Json.onlyMember? "line".toList ms)
  | .array [phase, text, pattern, parameters, hasTable, line] =>
    ofValues? phase text pattern parameters hasTable line
  | _ => none

def ofJsonText? (t : Text) : Option CompiledStep := (Json.ofText? t).bind ofJson?

end CompiledStep
end StepStubs
