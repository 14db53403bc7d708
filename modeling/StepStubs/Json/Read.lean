/-
Reading a JSON text.

The tokens are read once, with a stack of the arrays and objects that are open.  Each state
of the reader says what may come next, so nothing is looked at twice and the reader ends
with the list of tokens.  A text holds exactly one value.
-/
import StepStubs.Json.Basic
import StepStubs.Json.Token

namespace StepStubs
namespace Json

/-! ## Words -/

/-- The text without the digits that it starts with, of which there has to be one. -/
def afterDigits? (t : Text) : Option Text :=
  match t with
  | c :: rest => if c.isDigit then some (rest.dropWhile Char.isDigit) else none
  | [] => none

/-- The text without the whole number that it starts with.  No digit follows a zero. -/
def afterWhole? (t : Text) : Option Text :=
  match t with
  | '0' :: rest => some rest
  | _ => afterDigits? t

/-- The text without the decimal places that it may start with. -/
def afterPlaces? (t : Text) : Option Text :=
  match t with
  | '.' :: rest => afterDigits? rest
  | _ => some t

/-- The text without the sign that it may start with. -/
def afterSign (t : Text) : Text :=
  match t with
  | '+' :: rest => rest
  | '-' :: rest => rest
  | _ => t

/-- The text without the exponent that it may start with. -/
def afterExponent? (t : Text) : Option Text :=
  match t with
  | 'e' :: rest => afterDigits? (afterSign rest)
  | 'E' :: rest => afterDigits? (afterSign rest)
  | _ => some t

/-- The text without the minus sign that it may start with. -/
def afterMinus (t : Text) : Text :=
  match t with
  | '-' :: rest => rest
  | _ => t

def isNumber (w : Text) : Bool :=
  (do afterExponent? (← afterPlaces? (← afterWhole? (afterMinus w)))) = some []

def naturalOfDigits (ds : Text) : Nat := ds.foldl (fun n d => n * 10 + (d.toNat - '0'.toNat)) 0

def ofWord? (w : Text) : Option Json :=
  if w = "null".toList then some .null
  else if w = "true".toList then some (.bool true)
  else if w = "false".toList then some (.bool false)
  else if isNumber w then
    some (if w.all Char.isDigit then .natural (naturalOfDigits w) else .foreign)
  else none

/-! ## Values -/

def ofString : Option Text → Json
  | some t => .string t
  | none => .foreign

def ofMembers (members : List (Option Text × Json)) : Json :=
  match members.mapM fun m => m.1.map fun name => (name, m.2) with
  | some ms => .object ms
  | none => .foreign

/-- An open array or object, with what was read of it latest first. -/
inductive Frame where
  | array (elements : List Json)
  /-- An object in which the value of `name` is being read. -/
  | member (members : List (Option Text × Json)) (name : Option Text)

/-- What may come next, inside the open arrays and objects `around`. -/
inductive Reader where
  /-- A value, or the end of an array that was just opened. -/
  | value (around : List Frame)
  /-- The name of a member, or the end of an object that was just opened. -/
  | memberName (members : List (Option Text × Json)) (around : List Frame)
  /-- The colon after a name. -/
  | colon (members : List (Option Text × Json)) (name : Option Text) (around : List Frame)
  /-- Whatever may follow the value `v`. -/
  | after (v : Json) (around : List Frame)

/-- Reads a token where a value is expected. -/
def Reader.readValue (around : List Frame) : Token → Option Reader
  | .string t => some (.after (ofString t) around)
  | .word w => (ofWord? w).map fun v => .after v around
  | .mark '[' => some (.value (.array [] :: around))
  | .mark '\x7b' => some (.memberName [] around)
  | .mark ']' =>
    match around with
    | .array [] :: rest => some (.after (.array []) rest)
    | _ => none
  | .mark _ => none

/-- Reads a token where the name of a member is expected. -/
def Reader.readName (members : List (Option Text × Json)) (around : List Frame) :
    Token → Option Reader
  | .string name => some (.colon members name around)
  | .mark '\x7d' => if members.isEmpty then some (.after (.object []) around) else none
  | _ => none

/-- Reads a token after the value `v`. -/
def Reader.readAfter (v : Json) (around : List Frame) (k : Token) : Option Reader :=
  match around, k with
  | .array vs :: rest, .mark ',' => some (.value (.array (v :: vs) :: rest))
  | .array vs :: rest, .mark ']' => some (.after (.array (v :: vs).reverse) rest)
  | .member ms name :: rest, .mark ',' => some (.memberName ((name, v) :: ms) rest)
  | .member ms name :: rest, .mark '\x7d' =>
    some (.after (ofMembers ((name, v) :: ms).reverse) rest)
  | _, _ => none

def Reader.read (r : Reader) (k : Token) : Option Reader :=
  match r with
  | .value around => readValue around k
  | .memberName members around => readName members around k
  | .colon members name around =>
    if k = .mark ':' then some (.value (.member members name :: around)) else none
  | .after v around => readAfter v around k

def ofText? (t : Text) : Option Json := do
  match ← (← tokens? t).foldlM Reader.read (.value []) with
  | .after v [] => some v
  | _ => none

end Json
end StepStubs
