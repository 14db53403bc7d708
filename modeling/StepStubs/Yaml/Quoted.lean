/-
Quoted scalars.

Between single quotes only a quote is special, and is doubled.  Between double quotes a
backslash starts an escape, and one at the end of a line joins the line to the next.  Line
ends inside are folded.
-/
import StepStubs.Yaml.Cursor
import StepStubs.Yaml.Error
import StepStubs.Yaml.Gap

namespace StepStubs
namespace Yaml

/-! ## Escapes -/

/-- The character that a backslash and `c` stand for. -/
def escaped? (c : Char) : Option Char :=
  match c with
  | '0' => some '\x00'
  | 'a' => some '\x07'
  | 'b' => some '\x08'
  | 't' => some '\t'
  | '\t' => some '\t'
  | 'n' => some '\n'
  | 'v' => some '\x0b'
  | 'f' => some '\x0c'
  | 'r' => some '\r'
  | 'e' => some '\x1b'
  | ' ' => some ' '
  | '"' => some '"'
  | '/' => some '/'
  | '\\' => some '\\'
  | 'N' => some '\x85'
  | '_' => some '\xa0'
  | 'L' => some '\u2028'
  | 'P' => some '\u2029'
  | _ => none

/-- How many hexadecimal digits follow a backslash and `c`. -/
def escapeDigits? (c : Char) : Option Nat :=
  match c with
  | 'x' => some 2
  | 'u' => some 4
  | 'U' => some 8
  | _ => none

/-- The character with a code point, if there is one. -/
def charOf? (n : Nat) : Option Char := if n.isValidChar then some (Char.ofNat n) else none

/-! ## Reading -/

inductive Quote where
  | single
  | double
  deriving Repr, DecidableEq

def Quote.char : Quote → Char
  | single => '\''
  | double => '"'

inductive Quoting where
  /-- The text, after a gap. -/
  | text (gap : Gap)
  /-- After a backslash. -/
  | escape
  /-- In the digits of a code point, of which `left` are still to come. -/
  | digits (left value : Nat)
  deriving Repr, DecidableEq

/-- Reads a quoted scalar from after its first quote.  `done` is the text so far, latest
character first. -/
def readQuoted (q : Quote) : Quoting → (done : Text) → Mark → (rest : Text) →
    Except Error (Text × Cursor)
  | _, _, _, [] => .error .openQuote
  | .text gap, done, mark, c :: rest =>
    if isGap c then readQuoted q (.text (gap.addSpace c)) done (mark.after c) rest
    else if isBreak c then readQuoted q (.text (gap.addBreak c)) done (mark.after c) rest
    else if mark.column = 0 ∧ atMarker (c :: rest) then .error .markInQuote
    else if c = q.char then
      match q, rest with
      | .single, '\'' :: more =>
        readQuoted q (.text .empty) ('\'' :: (gap.folded ++ done)) ((mark.after c).after '\'') more
      | _, _ => .ok ((gap.folded ++ done).reverse, ⟨mark.after c, rest⟩)
    else if q = .double ∧ c = '\\' then
      readQuoted q .escape (gap.folded ++ done) (mark.after c) rest
    else readQuoted q (.text .empty) (c :: (gap.folded ++ done)) (mark.after c) rest
  | .escape, done, mark, c :: rest =>
    if isBreak c then readQuoted q (.text (.breaks none [])) done (mark.after c) rest
    else
      match escaped? c, escapeDigits? c with
      | some d, _ => readQuoted q (.text .empty) (d :: done) (mark.after c) rest
      | none, some n => readQuoted q (.digits n 0) done (mark.after c) rest
      | none, none => .error .badEscape
  | .digits left value, done, mark, c :: rest =>
    match Text.hexDigit? c with
    | none => .error .badEscape
    | some d =>
      if left ≤ 1 then
        match charOf? (value * 16 + d) with
        | some x => readQuoted q (.text .empty) (x :: done) (mark.after c) rest
        | none => .error .badEscape
      else readQuoted q (.digits (left - 1) (value * 16 + d)) done (mark.after c) rest

end Yaml
end StepStubs
