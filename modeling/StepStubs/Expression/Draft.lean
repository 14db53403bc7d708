/-
A pattern under way.

Between the text of a step and its pattern stands a draft: a list of pieces, each a
character of the text or the slot of a parameter.  A slot is no character, so a rule that
looks for word characters, digits or brackets can never match inside one, and the
parameters are the slots from left to right, whatever the rules moved.

`Draft.finish` writes the draft as a pattern.  Braces are escaped there, and a backslash
keeps escaping the character after it only if a pattern may escape that character;
otherwise it is escaped itself, so that it never reaches a slot.
-/
import StepStubs.Text.Basic
import StepStubs.Step.Parameter

namespace StepStubs
namespace Expression

/-- A character of the step text, or the slot of a parameter. -/
inductive Piece where
  | char (c : Char)
  | slot (p : Parameter)
  deriving Repr, DecidableEq

abbrev Draft := List Piece

/-- A compiled pattern: its text, and the types of its placeholders from left to right. -/
structure Pattern where
  text : Text
  parameters : List Parameter
  deriving Repr, DecidableEq

/-- Two private-use characters that have no place in a step text: it loses them before it
is compiled. -/
def isPrivate (c : Char) : Bool := c == '\ue000' || c == '\ue001'

/-- A character that a backslash may escape in a pattern. -/
def isEscapable (c : Char) : Bool :=
  c == '(' || c == ')' || c == '/' || c == '\x7b' || c == '\x7d' || c == '\\' || Text.isBlank c

namespace Draft

def ofChars (t : Text) : Draft := t.map .char

/-- The draft that compiling a step text starts from: the text, trimmed, without private-use
characters. -/
def ofText (t : Text) : Draft := ofChars ((Text.trim t).filter fun c => !isPrivate c)

def parameters (d : Draft) : List Parameter :=
  d.filterMap fun
    | .char _ => none
    | .slot p => some p

/-- Does the draft go on with a character that a backslash may escape? -/
def startsEscapable : Draft → Bool
  | .char c :: _ => isEscapable c
  | _ => false

/-- The pattern text of a draft from a position on.  `escaped` says that a backslash
before the position escapes the character at it. -/
def patternFrom : (escaped : Bool) → Draft → Text
  | _, [] => []
  | _, .slot p :: d => p.placeholder ++ patternFrom false d
  | true, .char c :: d => c :: patternFrom false d
  | false, .char c :: d =>
    if c = '\\' then
      if startsEscapable d then c :: patternFrom true d else c :: c :: patternFrom false d
    else if c = '\x7b' ∨ c = '\x7d' then '\\' :: c :: patternFrom false d
    else c :: patternFrom false d

def patternText (d : Draft) : Text := patternFrom false d

def finish (d : Draft) : Pattern := ⟨patternText d, parameters d⟩

end Draft
end Expression
end StepStubs
