/-
What a run reports about one feature file.
-/
import StepStubs.Json.Basic
import StepStubs.Step.Set

namespace StepStubs
namespace Run

structure Report where
  source : Text
  output : Text
  totalSteps : Nat
  uniqueSteps : Nat
  /-- How many of them belong to each phase. -/
  context : Nat
  action : Nat
  outcome : Nat
  skippedLines : Nat
  keys : List StepKey
  deriving Repr, DecidableEq

namespace Report

def ofSteps (source output : Text) (total skipped : Nat) (steps : StepSet) : Report :=
  { source := source
    output := output
    totalSteps := total
    uniqueSteps := steps.size
    context := steps.count .context
    action := steps.count .action
    outcome := steps.count .outcome
    skippedLines := skipped
    keys := steps.keys }

/-- The report in words.  Skipped lines are told only if there are any. -/
def text (r : Report) : Text :=
  "  Found ".toList ++ Text.ofNat r.totalSteps ++ " step definitions\n".toList ++
    "  After deduplication: ".toList ++ Text.ofNat r.uniqueSteps ++
    " unique step definitions\n".toList ++
    "✓ Generated: ".toList ++ r.output ++
    "\n  - Given: ".toList ++ Text.ofNat r.context ++
    "\n  - When: ".toList ++ Text.ofNat r.action ++
    "\n  - Then: ".toList ++ Text.ofNat r.outcome ++
    if 0 < r.skippedLines then "\n  - Skipped lines: ".toList ++ Text.ofNat r.skippedLines else []

/-- The report as JSON.  The keys are left out. -/
def toJson (r : Report) : Json :=
  .object
    [("source".toList, .string r.source), ("output".toList, .string r.output),
     ("total_steps".toList, .natural r.totalSteps),
     ("unique_steps".toList, .natural r.uniqueSteps),
     ("given".toList, .natural r.context), ("when".toList, .natural r.action),
     ("then".toList, .natural r.outcome), ("skipped_lines".toList, .natural r.skippedLines)]

end Report
end Run
end StepStubs
