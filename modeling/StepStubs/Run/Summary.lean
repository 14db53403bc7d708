/-
What a run reports about all its feature files.

The totals are kept up to date while reports are recorded.  A definition counts once for
the whole run, however many files have it, and a stub file that is written again is noted.
-/
import StepStubs.Run.Report

namespace StepStubs
namespace Run

structure Summary where
  filesProcessed : Nat
  filesGenerated : Nat
  totalSteps : Nat
  distinctPatterns : Nat
  skippedLines : Nat
  /-- The stub files that were written although they had been written before. -/
  overwritten : List Text
  /-- The reports in order. -/
  files : List Report
  /-- The keys so far, each once. -/
  seen : List StepKey
  /-- The stub files so far, each once. -/
  outputs : List Text
  deriving Repr, DecidableEq

namespace Summary

/-- The summary of a run without files. -/
def empty : Summary := ⟨0, 0, 0, 0, 0, [], [], [], []⟩

def hasOutput (s : Summary) (output : Text) : Bool := s.outputs.contains output

def record (s : Summary) (r : Report) : Summary :=
  let seen := r.keys.foldl (fun ks k => ks.insert k) s.seen
  { filesProcessed := s.filesProcessed + 1
    filesGenerated := s.filesGenerated + 1
    totalSteps := s.totalSteps + r.totalSteps
    distinctPatterns := seen.length
    skippedLines := s.skippedLines + r.skippedLines
    overwritten := if s.hasOutput r.output then s.overwritten ++ [r.output] else s.overwritten
    files := s.files ++ [r]
    seen := seen
    outputs := s.outputs.insert r.output }

def ofReports (rs : List Report) : Summary := rs.foldl record empty

def text (s : Summary) : Text :=
  "📊 Summary:\n  - Processed ".toList ++ Text.ofNat s.filesProcessed ++
    " feature file(s)\n  - Generated ".toList ++ Text.ofNat s.filesGenerated ++
    " step definition file(s)\n  - Total unique step definitions across all files: ".toList ++
    Text.ofNat s.distinctPatterns ++
    "\n  - Unrecognized lines skipped: ".toList ++ Text.ofNat s.skippedLines

/-- The summary as JSON.  What is only kept for counting is left out. -/
def toJson (s : Summary) : Json :=
  .object
    [("files_processed".toList, .natural s.filesProcessed),
     ("files_generated".toList, .natural s.filesGenerated),
     ("total_steps".toList, .natural s.totalSteps),
     ("distinct_patterns".toList, .natural s.distinctPatterns),
     ("skipped_lines".toList, .natural s.skippedLines),
     ("overwritten_outputs".toList, .array (s.overwritten.map .string)),
     ("files".toList, .array (s.files.map Report.toJson))]

end Summary
end Run
end StepStubs
