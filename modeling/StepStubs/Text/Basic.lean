/-
Text and its blank characters.

A text is a list of characters, so that every statement about one is an induction
on a list and the kernel can run each definition on a concrete text.  Blank means
the `White_Space` property of the character standard: the class is wider than
`Char.isWhitespace`, which knows six ASCII characters only.
-/

namespace StepStubs

/-- A text, character by character. -/
abbrev Text := List Char

namespace Text

/-! ## Characters -/

def inRanges (ranges : List (Nat × Nat)) (n : Nat) : Bool :=
  ranges.any fun r => decide (r.1 ≤ n) && decide (n ≤ r.2)

/-- Is the code point at least `low` and at most `high`? -/
def isBetween (low high n : Nat) : Bool := decide (low ≤ n) && decide (n ≤ high)

/-- White space of any kind, line breaks included. -/
def isBlank (c : Char) : Bool :=
  let n := c.toNat
  isBetween 0x09 0x0D n || n == 0x20 || n == 0x85 || n == 0xA0 || n == 0x1680 ||
    isBetween 0x2000 0x200A n || isBetween 0x2028 0x2029 n || n == 0x202F || n == 0x205F ||
    n == 0x3000

/-! ## Trimming -/

/-- The text without its leading blanks. -/
def trimStart (t : Text) : Text := t.dropWhile isBlank

/-- The text without its trailing blanks.  A text that ends in none is left as it is. -/
def trimEnd (t : Text) : Text :=
  if t.getLast?.any isBlank then (t.reverse.dropWhile isBlank).reverse else t

/-- The text without its leading and trailing blanks. -/
def trim (t : Text) : Text := trimEnd (trimStart t)

/-- Taking the trailing blanks off is taking the leading ones off the reversed text. -/
theorem trimEnd_eq (t : Text) : trimEnd t = (t.reverse.dropWhile isBlank).reverse := by
  unfold trimEnd
  split
  · rfl
  · next h =>
    rw [← List.head?_reverse] at h
    cases hr : t.reverse with
    | nil => simpa using hr
    | cons c r =>
      have hc : isBlank c = false := by simpa [hr] using h
      rw [List.dropWhile_cons_of_neg (by simp [hc]), ← hr, List.reverse_reverse]

/-- Is there nothing but blanks in the text? -/
def allBlank (t : Text) : Bool := t.all isBlank

/-- What is left of the text when `start` is taken off its front, if it starts with it. -/
def afterStart? (start t : Text) : Option Text := start.isPrefixOf? t

/-- What is left of the text when `c` is taken off its end, if it ends in it. -/
def beforeLast? (c : Char) (t : Text) : Option Text :=
  if t.getLast? = some c then some t.dropLast else none

/-! ## Lines -/

/-- The line whose characters are given latest first, without a carriage return at its
end. -/
def endedLine : (latestFirst : Text) → Text
  | '\r' :: line => line.reverse
  | line => line.reverse

/-- The lines of a text from a position on.  `line` is what comes before the position on
its line, latest character first. -/
def linesFrom : (line : Text) → Text → List Text
  | [], [] => []
  | line, [] => [line.reverse]
  | line, c :: t => if c = '\n' then endedLine line :: linesFrom [] t else linesFrom (c :: line) t

/-- The lines of a text.  A line feed ends a line, together with one carriage return
before it.  What follows the last line feed is a line unless it is empty, and there a
carriage return stays. -/
def lines (t : Text) : List Text := linesFrom [] t

/-! ## Digits -/

def hexDigit? (c : Char) : Option Nat :=
  if '0' ≤ c ∧ c ≤ '9' then some (c.toNat - '0'.toNat)
  else if 'a' ≤ c ∧ c ≤ 'f' then some (c.toNat - 'a'.toNat + 10)
  else if 'A' ≤ c ∧ c ≤ 'F' then some (c.toNat - 'A'.toNat + 10)
  else none

/-! ## Joining -/

def ofNat (n : Nat) : Text := Nat.toDigits 10 n

/-- The texts one after the other with `separator` between them. -/
def join (separator : Text) (ts : List Text) : Text := List.intercalate separator ts

end Text
end StepStubs
