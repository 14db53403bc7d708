/-
Word characters and digits.

A numeral stands alone when the characters beside it are no word characters, and two
words can be alternatives of one another; both rules read the class decided here.  ASCII
is decided first, so that the table is looked at only for other characters.
-/
import StepStubs.Text.Basic
import StepStubs.Text.WordRanges

namespace StepStubs
namespace Text

def isDigit (c : Char) : Bool := decide ('0' ≤ c) && decide (c ≤ '9')

def isLetter (c : Char) : Bool :=
  (decide ('a' ≤ c) && decide (c ≤ 'z')) || (decide ('A' ≤ c) && decide (c ≤ 'Z'))

def isWord (c : Char) : Bool :=
  if c.toNat < 0x80 then isLetter c || isDigit c || c == '_' else inRanges wordRanges c.toNat

theorem isWord_of_isDigit {c : Char} (h : isDigit c = true) : isWord c = true := by
  have hle : c ≤ '9' := by simp [isDigit] at h; exact h.2
  have hlt : c.toNat < 0x80 := Nat.lt_of_le_of_lt (Char.le_def.mp hle) (by decide)
  simp [isWord, hlt, h]

end Text
end StepStubs
