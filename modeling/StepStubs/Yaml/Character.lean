/-
The characters of a YAML text.

A line ends with a line feed, a carriage return, both together, or the control character
for a next line; all of these are made line feeds before anything else is looked at.  Two
separators of the character standard end a line too, and stay as they are.
-/
import StepStubs.Text.Basic

namespace StepStubs
namespace Yaml

def isAllowed (c : Char) : Bool :=
  Text.inRanges [(0x09, 0x0A), (0x0D, 0x0D), (0x20, 0x7E), (0x85, 0x85), (0xA0, 0xD7FF),
    (0xE000, 0xFFFD), (0x10000, 0x10FFFF)] c.toNat

/-- The text with a line feed for each line end that is not one of the two separators. -/
def unifyBreaks : Text → Text
  | '\r' :: '\n' :: t => '\n' :: unifyBreaks t
  | '\r' :: t => '\n' :: unifyBreaks t
  | '\x85' :: t => '\n' :: unifyBreaks t
  | c :: t => c :: unifyBreaks t
  | [] => []

/-- Does the character end a line, once line ends are unified? -/
def isBreak (c : Char) : Bool := c = '\n' || c = '\u2028' || c = '\u2029'

/-- Is the character a space or a tab? -/
def isGap (c : Char) : Bool := c = ' ' || c = '\t'

/-- Does the text end, or go on with a space, a tab or a line end? -/
def atGap : Text → Bool
  | [] => true
  | c :: _ => isGap c || isBreak c

def atLineEnd : Text → Bool
  | [] => true
  | c :: _ => isBreak c

/-- May the character stand in the name of an anchor, a directive or a handle? -/
def isNameChar (c : Char) : Bool := c.isAlphanum || c = '_' || c = '-'

/-- Does a line that starts here mark the start or the end of a document? -/
def atMarker (t : Text) : Bool :=
  (t.take 3 = ['-', '-', '-'] || t.take 3 = ['.', '.', '.']) && atGap (t.drop 3)

/-- The text without the gap that it starts with. -/
def skipGap (t : Text) : Text := t.dropWhile isGap

/-- The text without the gap and the comment that it starts with. -/
def skipComment (t : Text) : Text :=
  match skipGap t with
  | '#' :: rest => rest.dropWhile fun c => !isBreak c
  | rest => rest

end Yaml
end StepStubs
