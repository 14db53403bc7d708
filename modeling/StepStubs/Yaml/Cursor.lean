/-
Positions in a YAML text.

Indentation is counted in columns, and a key has to stand on one line and within a certain
number of characters, so a position knows its line, its column, and how many characters
come before it.
-/
import StepStubs.Yaml.Character

namespace StepStubs
namespace Yaml

/-- Where a character stands. -/
structure Mark where
  line : Nat
  column : Nat
  /-- How many characters come before. -/
  index : Nat
  deriving Repr, DecidableEq

/-- The position after the character `c`. -/
def Mark.after (m : Mark) (c : Char) : Mark :=
  if isBreak c then ⟨m.line + 1, 0, m.index + 1⟩ else ⟨m.line, m.column + 1, m.index + 1⟩

/-- What is left of a text, and where it starts. -/
structure Cursor where
  mark : Mark
  rest : Text
  deriving Repr, DecidableEq

namespace Cursor

def start (t : Text) : Cursor := ⟨⟨0, 0, 0⟩, t⟩

/-- The cursor after `n` more characters. -/
def advance (c : Cursor) (n : Nat) : Cursor :=
  ⟨(c.rest.take n).foldl Mark.after c.mark, c.rest.drop n⟩

/-- The cursor at `rest`, which has to be an end of what the cursor has left. -/
def moveTo (c : Cursor) (rest : Text) : Cursor := c.advance (c.rest.length - rest.length)

end Cursor
end Yaml
end StepStubs
