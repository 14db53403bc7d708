/-
Directives, anchors, aliases and tags.

Each starts with a mark of its own and ends at a gap or at one of a few other characters.
What a tag says does not matter for a configuration, but it has to be well-formed, and its
handle has to be defined.
-/
import StepStubs.Yaml.Cursor
import StepStubs.Yaml.Error
import StepStubs.Yaml.Token

namespace StepStubs
namespace Yaml

/-! ## Tags -/

/-- May the character stand in a tag?  Between angle brackets there are three more. -/
def isTagChar (verbatim : Bool) (c : Char) : Bool :=
  isNameChar c || ";/?:@&=+$.!~*'()".toList.contains c || (verbatim && [',', '[', ']'].contains c)

def byte? (a b : Char) : Option Nat := do
  return (← Text.hexDigit? a) * 16 + (← Text.hexDigit? b)

/-- How many bytes follow the first byte of a character. -/
def bytesAfter? (first : Nat) : Option Nat :=
  if first < 0x80 then some 0
  else if 0xC0 ≤ first ∧ first < 0xE0 then some 1
  else if 0xE0 ≤ first ∧ first < 0xF0 then some 2
  else if 0xF0 ≤ first ∧ first < 0xF8 then some 3
  else none

/-- The text after the characters of a tag that it starts with.  A byte may be written with
a percent sign and two digits; `pending` more bytes of a character have to follow. -/
def afterTagText? (verbatim : Bool) : (pending : Nat) → Text → Option Text
  | 0, '%' :: a :: b :: rest =>
    match (byte? a b).bind bytesAfter? with
    | some n => afterTagText? verbatim n rest
    | none => none
  | pending + 1, '%' :: a :: b :: rest =>
    match byte? a b with
    | some n => if 0x80 ≤ n ∧ n < 0xC0 then afterTagText? verbatim pending rest else none
    | none => none
  | 0, c :: rest =>
    if c = '%' then none
    else if isTagChar verbatim c then afterTagText? verbatim 0 rest
    else some (c :: rest)
  | 0, [] => some []
  | _ + 1, _ => none

/-- The text after the characters of a tag that it starts with, of which there has to be
one. -/
def afterTagSuffix? (verbatim : Bool) (t : Text) : Option Text :=
  (afterTagText? verbatim 0 t).filter fun rest => rest.length < t.length

/-- The handle of the tag that follows an exclamation mark, and the text after the tag. -/
def tagParts? (t : Text) : Option (Text × Text) :=
  match t with
  | '<' :: rest =>
    match afterTagSuffix? true rest with
    | some ('>' :: more) => some (['!'], more)
    | _ => none
  | _ =>
    let (name, rest) := t.span isNameChar
    match rest with
    | '!' :: suffix => (afterTagSuffix? false suffix).map fun more => ('!' :: name ++ ['!'], more)
    | _ => (afterTagText? false 0 rest).map fun more => (['!'], more)

/-- May a tag end before the text? -/
def endsTag (inFlow : Bool) (t : Text) : Bool := atGap t || (inFlow && t.head? = some ',')

def readTag (inFlow : Bool) (c : Cursor) : Except Error (Token × Cursor) :=
  match tagParts? (c.rest.drop 1) with
  | some (handle, rest) =>
    if endsTag inFlow rest then .ok (.tag handle, c.moveTo rest) else .error .badTag
  | none => .error .badTag

/-! ## Anchors and aliases -/

/-- May the name of an anchor end before the text? -/
def endsAnchor (t : Text) : Bool :=
  atGap t || (t.head?.map "?:,]\x7d%@\x60".toList.contains).getD false

/-- Reads the name of an anchor or an alias. -/
def readAnchor (c : Cursor) : Except Error (Text × Cursor) :=
  let (name, rest) := (c.rest.drop 1).span isNameChar
  if name ≠ [] ∧ endsAnchor rest then .ok (name, c.moveTo rest) else .error .badAnchor

/-! ## Directives -/

/-- The number that a text starts with, of at most nine digits, and the text after it. -/
def number? (t : Text) : Option (Nat × Text) :=
  let (digits, rest) := t.span Char.isDigit
  if digits ≠ [] ∧ digits.length ≤ 9 then
    some (digits.foldl (fun n d => n * 10 + (d.toNat - '0'.toNat)) 0, rest)
  else none

/-- The version that a text starts with, and the text after it. -/
def version? (t : Text) : Option (Token × Text) := do
  let (major, rest) ← number? (skipGap t)
  match rest with
  | '.' :: more =>
    let (minor, after) ← number? more
    return (.version major minor, after)
  | _ => none

/-- The handle that a text starts with, and the text after what the handle stands for. -/
def handle? (t : Text) : Option (Token × Text) :=
  match skipGap t with
  | '!' :: rest =>
    let (name, after) := rest.span isNameChar
    let (handle, after) :=
      match after with
      | '!' :: more => ('!' :: name ++ ['!'], more)
      | _ => ('!' :: name, after)
    if (handle = ['!'] ∨ handle.getLast? = some '!') ∧ (after.head?.map isGap).getD false then
      (afterTagSuffix? true (skipGap after)).bind fun more =>
        if atGap more then some (.handle handle, more) else none
    else none
  | _ => none

/-- The directive with a name and arguments, and the text after it. -/
def directive? (name arguments : Text) : Option (Token × Text) :=
  if name = "YAML".toList then version? arguments
  else if name = "TAG".toList then handle? arguments
  else none

def readDirective (c : Cursor) : Except Error (Token × Cursor) :=
  let (name, arguments) := (c.rest.drop 1).span isNameChar
  match directive? name arguments with
  | some (token, rest) =>
    let lineEnd := skipComment rest
    if atGap arguments ∧ atLineEnd lineEnd then .ok (token, c.moveTo (lineEnd.drop 1))
    else .error .badDirective
  | none => .error .badDirective

end Yaml
end StepStubs
