/-
Reading the steps of a feature file.

The file is read line by line.  Two things are carried from a line to the next: the phase
of the last step, which a line led by `And` or `But` continues, and the mark of an open doc
string, inside which every line is passed over until one starts with the same mark.  At
the start the phase is the context, so a leading `And` sets something up.

Reading never fails.  A line that is nothing known is kept with its number.
-/
import StepStubs.Feature.Line
import StepStubs.Feature.Step

namespace StepStubs
namespace Feature

/-- A line that is nothing known: its number, and its trimmed text. -/
structure SkippedLine where
  line : Nat
  text : Text
  deriving Repr, DecidableEq

structure Extraction where
  /-- The steps, in order. -/
  steps : List Step
  /-- The lines that are nothing known, in order. -/
  skipped : List SkippedLine
  totalLines : Nat
  endsInDocString : Bool
  deriving Repr, DecidableEq

/-- Where the reader of a file stands.  Steps and skipped lines are kept latest first. -/
structure Reader where
  linesRead : Nat
  previous : Phase
  openFence : Option Fence
  steps : List Step
  skipped : List SkippedLine
  deriving Repr, DecidableEq

namespace Reader

/-- Before the first line. -/
def start : Reader := ⟨0, .context, none, [], []⟩

/-- Reads a trimmed line outside doc strings.  The line was counted already. -/
def readOutside (r : Reader) (line : Text) : Reader :=
  match LineKind.of line with
  | .fence f => { r with openFence := some f }
  | .step lead rest =>
    let step := Step.ofLine r.previous lead rest r.linesRead
    { r with previous := step.phase, steps := step :: r.steps }
  | .unrecognized => { r with skipped := ⟨r.linesRead, line⟩ :: r.skipped }
  | .blank | .comment | .tag | .tableRow | .header => r

/-- Reads a trimmed line inside a doc string with the mark `f`. -/
def readInside (r : Reader) (f : Fence) (line : Text) : Reader :=
  if f.starts line then { r with openFence := none } else r

def read (r : Reader) (line : Text) : Reader :=
  let counted := { r with linesRead := r.linesRead + 1 }
  match r.openFence with
  | some f => counted.readInside f (Text.trim line)
  | none => counted.readOutside (Text.trim line)

def extraction (r : Reader) : Extraction :=
  ⟨r.steps.reverse, r.skipped.reverse, r.linesRead, r.openFence.isSome⟩

end Reader

def extract (content : Text) : Extraction :=
  ((Text.lines content).foldl Reader.read Reader.start).extraction

end Feature
end StepStubs
