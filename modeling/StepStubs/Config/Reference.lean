/-
References to environment variables in a configuration.

A reference is written as a dollar sign and the name of a variable in braces.  After the
name there may be a colon, a dash and a default, which stands in for a variable that is not
set.  References are replaced in one pass, so what comes in their place is never looked at
again.
-/
import StepStubs.Environment
import StepStubs.Text.Segments

namespace StepStubs
namespace Config

structure Reference where
  name : Text
  fallback : Option Text
  deriving Repr, DecidableEq

namespace Reference

/-- Is the character neither a colon nor a closing brace? -/
def isNameChar (c : Char) : Bool := c ≠ '\x7d' && c ≠ ':'

def isFallbackChar (c : Char) : Bool := c ≠ '\x7d'

/-- The reference whose name a text starts with, and how many characters it has from there
on, its closing brace included. -/
def ofBody? (t : Text) : Option (Reference × Nat) :=
  let (name, rest) := t.span isNameChar
  if name = [] then none
  else
    match rest with
    | '\x7d' :: _ => some (⟨name, none⟩, name.length + 1)
    | ':' :: '-' :: more =>
      let (fallback, after) := more.span isFallbackChar
      match after with
      | '\x7d' :: _ => some (⟨name, some fallback⟩, name.length + fallback.length + 3)
      | _ => none
    | _ => none

/-- The reference that a text starts with, and how many characters it has. -/
def ofText? : Text → Option (Reference × Nat)
  | '$' :: '\x7b' :: body => (ofBody? body).map fun found => (found.1, found.2 + 2)
  | _ => none

/-- Says where references start and how long they are. -/
def rule : Text.Rule Char := fun _ t => (ofText? t).map fun found => found.2 - 1

/-- What comes in the place of the reference: the value of the variable, or else the
default.  It is an error if there is neither; the error is the name. -/
def value (env : Environment) (r : Reference) : Except Text Text :=
  match env.get? r.name, r.fallback with
  | some v, _ => .ok v
  | none, some d => .ok d
  | none, none => .error r.name

end Reference

/-- The references of a text, in order. -/
def references (t : Text) : List Reference :=
  (Text.segments Reference.rule t).filterMap fun
    | .kept _ => none
    | .span s => (Reference.ofText? s).map Prod.fst

/-- What comes in the place of a segment of a configuration's text. -/
def expandSegment (env : Environment) : Text.Segment Char → Except Text Text
  | .kept c => .ok [c]
  | .span s =>
    match Reference.ofText? s with
    | some found => found.1.value env
    | none => .ok s

/-- The text with each reference replaced.  It is an error if a variable is not set and has
no default; the error is the name of the first such variable. -/
def expand (env : Environment) (t : Text) : Except Text Text := do
  return (← (Text.segments Reference.rule t).mapM (expandSegment env)).flatten

end Config
end StepStubs
