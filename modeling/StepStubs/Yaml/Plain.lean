/-
Plain scalars.

A plain scalar has no quotes and goes on until something follows that cannot belong to it:
a colon before a gap, a comment after one, a mark of a flow collection inside one, a line
that is not indented deeply enough, or a document marker.
-/
import StepStubs.Yaml.Cursor
import StepStubs.Yaml.Error
import StepStubs.Yaml.Gap

namespace StepStubs
namespace Yaml

def isFlowMark (c : Char) : Bool := [',', '[', ']', '\x7b', '\x7d'].contains c

/-- Is there a colon before a mark of a flow collection, or before a question mark? -/
def atFlowColon : Text → Bool
  | ':' :: c :: _ => isFlowMark c || c = '?'
  | _ => false

/-- Does the text go on with a colon before a gap? -/
def atValueColon : Text → Bool
  | ':' :: rest => atGap rest
  | _ => false

def endsPlainWord (inFlow : Bool) (t : Text) : Bool :=
  atValueColon t || (inFlow && (t.head?.map isFlowMark).getD false)

/-- Can a plain scalar not go on after a gap with this text, which starts at `column`? -/
def endsPlainGap (inFlow : Bool) (isDeeper : Nat → Bool) (gap : Gap) (column : Nat) (t : Text) :
    Bool :=
  (gap.endsLine && !inFlow && !isDeeper column) || (column = 0 && atMarker t) ||
    (gap ≠ .empty && t.head? = some '#')

/-- Reads a plain scalar.  `isDeeper` says which columns are inside the collection that the
scalar belongs to, and `done` is the text so far, latest character first.  The result says
what was read after the last word, too. -/
def readPlain (inFlow : Bool) (isDeeper : Nat → Bool) : Gap → (done : Text) → Mark →
    (rest : Text) → Except Error (Text × Gap × Cursor)
  | gap, done, mark, [] => .ok (done.reverse, gap, ⟨mark, []⟩)
  | gap, done, mark, c :: rest =>
    if isGap c then
      if gap.endsLine ∧ c = '\t' ∧ !isDeeper mark.column then .error .tabInIndentation
      else readPlain inFlow isDeeper (gap.addSpace c) done (mark.after c) rest
    else if isBreak c then readPlain inFlow isDeeper (gap.addBreak c) done (mark.after c) rest
    else if endsPlainGap inFlow isDeeper gap mark.column (c :: rest) then
      .ok (done.reverse, gap, ⟨mark, c :: rest⟩)
    else if inFlow ∧ atFlowColon (c :: rest) then .error .colonInFlow
    else if endsPlainWord inFlow (c :: rest) then .ok (done.reverse, gap, ⟨mark, c :: rest⟩)
    else readPlain inFlow isDeeper .empty (c :: (gap.folded ++ done)) (mark.after c) rest

end Yaml
end StepStubs
