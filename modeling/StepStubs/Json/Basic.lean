/-
JSON values.

The program writes texts, natural numbers, booleans, arrays and objects, and of what it
reads it keeps the same.  A well-formed value of another sort can only stand where it is
passed over, so all such values are one: `foreign`.
-/
import StepStubs.Text.Basic

namespace StepStubs

inductive Json where
  | null
  | bool (b : Bool)
  /-- A number written with digits only. -/
  | natural (n : Nat)
  | string (t : Text)
  | array (elements : List Json)
  /-- The members in the order in which they are written.  Names may repeat. -/
  | object (members : List (Text × Json))
  /-- Another number, or a string or an object with a name that is no text, since half of
  a surrogate pair is missing. -/
  | foreign
  deriving Repr

namespace Json

/-- The member with the name, if there is exactly one. -/
def onlyMember? (name : Text) (members : List (Text × Json)) : Option Json :=
  match members.filter fun m => m.1 = name with
  | [m] => some m.2
  | _ => none

def bool? : Json → Option Bool
  | bool b => some b
  | _ => none

def natural? : Json → Option Nat
  | natural n => some n
  | _ => none

def string? : Json → Option Text
  | string t => some t
  | _ => none

/-- The name that stands for one of several choices: alone, or as an object's only member,
with nothing as its value. -/
def choice? : Json → Option Text
  | string t => some t
  | object [(name, null)] => some name
  | _ => none

def elements? : Json → Option (List Json)
  | array elements => some elements
  | _ => none

end Json
end StepStubs
