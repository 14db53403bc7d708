/-
Writing a JSON value.

Each element and each member stands on a line of its own, two spaces further in than what
holds it; empty arrays and objects stay on one line.  In strings only the quote, the
backslash and the control characters below the space are escaped.
-/
import StepStubs.Json.Basic

namespace StepStubs
namespace Json

def writeChar (c : Char) : Text :=
  match c with
  | '"' => "\\\"".toList
  | '\\' => "\\\\".toList
  | '\x08' => "\\b".toList
  | '\x0c' => "\\f".toList
  | '\n' => "\\n".toList
  | '\r' => "\\r".toList
  | '\t' => "\\t".toList
  | _ =>
    if c.toNat < 0x20 then
      "\\u00".toList ++ [Nat.digitChar (c.toNat / 16), Nat.digitChar (c.toNat % 16)]
    else [c]

def writeString (t : Text) : Text := '"' :: t.flatMap writeChar ++ ['"']

/-- A new line, `depth` levels in. -/
def lineBreak (depth : Nat) : Text := '\n' :: List.replicate (2 * depth) ' '

/-- The items between an opening and a closing mark, each on a line of its own. -/
def block (opening closing : Char) (depth : Nat) (items : List Text) : Text :=
  if items.isEmpty then [opening, closing]
  else
    opening :: (lineBreak (depth + 1) ++ Text.join (',' :: lineBreak (depth + 1)) items ++
      lineBreak depth ++ [closing])

mutual

/-- How a value is written whose first line is `depth` levels in. -/
def write (depth : Nat) : Json → Text
  | null => "null".toList
  | bool b => if b then "true".toList else "false".toList
  | natural n => Text.ofNat n
  | string t => writeString t
  | array elements => block '[' ']' depth (writeElements (depth + 1) elements)
  | object members => block '\x7b' '\x7d' depth (writeMembers (depth + 1) members)
  | foreign => "null".toList

def writeElements (depth : Nat) : List Json → List Text
  | [] => []
  | v :: vs => write depth v :: writeElements depth vs

def writeMembers (depth : Nat) : List (Text × Json) → List Text
  | [] => []
  | (name, v) :: ms => (writeString name ++ ": ".toList ++ write depth v) :: writeMembers depth ms

end

def pretty (v : Json) : Text := write 0 v

end Json
end StepStubs
