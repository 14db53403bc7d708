/-
Compiling a step text into a pattern: the draft of the text goes through the six passes
and is then written out.
-/
import StepStubs.Expression.Pass

namespace StepStubs
namespace Expression

/-- A draft, and what each pass makes of the one before, in order. -/
def stages : List Pass → Draft → List Draft
  | [], d => [d]
  | p :: ps, d => d :: stages ps (p.apply d)

/-- The drafts of a step text before the first pass and after each pass. -/
def drafts (t : Text) : List Draft := stages Pass.all (Draft.ofText t)

/-- The draft of a step text after all passes. -/
def draft (t : Text) : Draft := Pass.all.foldl (fun d p => p.apply d) (Draft.ofText t)

def compile (t : Text) : Pattern := (draft t).finish

/-- The characters that mean something in a pattern outside its placeholders. -/
def isStructural (c : Char) : Bool := c == '(' || c == ')' || c == '/'

def escapeStructural (t : Text) : Text := Text.escape '\\' isStructural t

def isFullyEscaped (t : Text) : Bool := Text.isEscaped '\\' isStructural t

end Expression
end StepStubs
