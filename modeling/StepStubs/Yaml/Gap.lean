/-
The gaps between the words of a scalar.

Words on one line are kept apart by the spaces and tabs between them.  Where a line ends
between two words the line end is folded: it counts as a space, unless empty lines follow,
and then they count instead.
-/
import StepStubs.Yaml.Character

namespace StepStubs
namespace Yaml

/-- What was read since the last word of a scalar, latest first. -/
inductive Gap where
  | spaces (cs : Text)
  /-- Line ends: the first, if it counts at all, and those of the empty lines after it. -/
  | breaks (first : Option Char) (more : Text)
  deriving Repr, DecidableEq

namespace Gap

def empty : Gap := spaces []

def endsLine : Gap → Bool
  | spaces _ => false
  | breaks _ _ => true

/-- The gap after one more space or tab.  At the start of a line they do not count. -/
def addSpace (c : Char) : Gap → Gap
  | spaces cs => spaces (c :: cs)
  | breaks first more => breaks first more

/-- The gap after one more line end. -/
def addBreak (c : Char) : Gap → Gap
  | spaces _ => breaks (some c) []
  | breaks first more => breaks first (c :: more)

/-- What the gap counts as, latest character first. -/
def folded : Gap → Text
  | spaces cs => cs
  | breaks none more => more
  | breaks (some c) more =>
    if c = '\n' then (if more.isEmpty then [' '] else more) else more ++ [c]

end Gap
end Yaml
end StepStubs
