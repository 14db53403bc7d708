/-
Tokens of a JSON text.

The text is scanned once, character by character.  Outside strings a character is white
space, a mark, or part of a word; what a word means is decided when it is complete.  Inside
strings a backslash starts an escape.  The scanner refuses control characters and unknown
escapes inside strings, and a text that ends inside one.
-/
import StepStubs.Text.Basic

namespace StepStubs
namespace Json

/-! ## Code units -/

/-- Is the number the first half of a surrogate pair? -/
def isLeading (n : Nat) : Bool := 0xD800 ≤ n && n < 0xDC00

def isTrailing (n : Nat) : Bool := 0xDC00 ≤ n && n < 0xE000

/-- The text of a list of code points and surrogates.  Two surrogates that make a pair are
one character; there is no text if one stands alone. -/
def textOfUnits? : List Nat → Option Text
  | [] => some []
  | n :: ns =>
    if isLeading n then
      match ns with
      | [] => none
      | m :: ms =>
        if isTrailing m then
          (textOfUnits? ms).map (Char.ofNat (0x10000 + (n - 0xD800) * 0x400 + (m - 0xDC00)) :: ·)
        else none
    else if isTrailing n then none
    else (textOfUnits? ns).map (Char.ofNat n :: ·)

/-- The character that a backslash and `c` stand for. -/
def escaped? (c : Char) : Option Char :=
  match c with
  | '"' => some '"'
  | '\\' => some '\\'
  | '/' => some '/'
  | 'b' => some '\x08'
  | 'f' => some '\x0c'
  | 'n' => some '\n'
  | 'r' => some '\r'
  | 't' => some '\t'
  | _ => none

/-! ## Tokens -/

inductive Token where
  /-- A bracket, a brace, a colon or a comma. -/
  | mark (c : Char)
  /-- A string, if it is a text. -/
  | string (t : Option Text)
  /-- A run of other characters: a number, a literal, or something that is neither. -/
  | word (w : Text)
  deriving Repr, DecidableEq

/-- Is the character a token by itself? -/
def isMark (c : Char) : Bool := ['[', ']', '\x7b', '\x7d', ':', ','].contains c

def isSpace (c : Char) : Bool := [' ', '\t', '\n', '\r'].contains c

/-- What the scanner is in the middle of.  Lists are kept latest first. -/
inductive Scanning where
  | nothing
  | word (soFar : Text)
  | string (units : List Nat)
  /-- After a backslash in a string. -/
  | escape (units : List Nat)
  /-- In the four digits of a code unit, of which `left` are still to come. -/
  | unit (units : List Nat) (left value : Nat)
  deriving Repr, DecidableEq

/-- The tokens so far, latest first, and what the scanner is in the middle of. -/
structure Scanner where
  tokens : List Token
  scanning : Scanning
  deriving Repr, DecidableEq

namespace Scanner

/-- A character between tokens, or the one that ends a word. -/
def betweenTokens (tokens : List Token) (c : Char) : Scanner :=
  if isSpace c then ⟨tokens, .nothing⟩
  else if isMark c then ⟨.mark c :: tokens, .nothing⟩
  else if c = '"' then ⟨tokens, .string []⟩
  else ⟨tokens, .word [c]⟩

def inString (tokens : List Token) (units : List Nat) (c : Char) : Option Scanner :=
  if c = '"' then some ⟨.string (textOfUnits? units.reverse) :: tokens, .nothing⟩
  else if c = '\\' then some ⟨tokens, .escape units⟩
  else if c.toNat < 0x20 then none
  else some ⟨tokens, .string (c.toNat :: units)⟩

def scan (s : Scanner) (c : Char) : Option Scanner :=
  match s.scanning with
  | .nothing => some (betweenTokens s.tokens c)
  | .word soFar =>
    if isSpace c || isMark c || c = '"' then
      some (betweenTokens (.word soFar.reverse :: s.tokens) c)
    else some ⟨s.tokens, .word (c :: soFar)⟩
  | .string units => inString s.tokens units c
  | .escape units =>
    if c = 'u' then some ⟨s.tokens, .unit units 4 0⟩
    else (escaped? c).map fun d => ⟨s.tokens, .string (d.toNat :: units)⟩
  | .unit units left value =>
    (Text.hexDigit? c).map fun d =>
      if left ≤ 1 then ⟨s.tokens, .string ((value * 16 + d) :: units)⟩
      else ⟨s.tokens, .unit units (left - 1) (value * 16 + d)⟩

def finish (s : Scanner) : Option (List Token) :=
  match s.scanning with
  | .nothing => some s.tokens.reverse
  | .word soFar => some (.word soFar.reverse :: s.tokens).reverse
  | _ => none

end Scanner

def tokens? (t : Text) : Option (List Token) := do
  (← t.foldlM Scanner.scan ⟨[], .nothing⟩).finish

end Json
end StepStubs
