/-
What a run says while it goes on.
-/
import StepStubs.Path.Basic
import StepStubs.Run.Summary

namespace StepStubs
namespace Run

inductive Progress where
  | searching (directory : Path) (extension : Text)
  | found (sources : List Text)
  | reading (source : Text)
  | generated (report : Report)
  | finished (summary : Summary)
  deriving Repr, DecidableEq

def Progress.text : Progress → Text
  | searching directory extension =>
    "Searching for .".toList ++ extension ++ " files in: ".toList ++ directory.text ++ ['\n']
  | found sources =>
    "Found ".toList ++ Text.ofNat sources.length ++ " feature file(s):\n".toList ++
      sources.flatMap fun s => "  - ".toList ++ s ++ ['\n']
  | reading source => "\nReading: ".toList ++ source ++ ['\n']
  | generated report => report.text ++ ['\n']
  | finished summary => '\n' :: summary.text ++ ['\n']

end Run
end StepStubs
