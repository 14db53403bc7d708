/-
The six passes of the compiler.

Each pass is a function on drafts.  The first four and the first half of the fifth cut
the draft at the spans of a rule and put something in their place; the rest escapes.

* `quotes`: a text in double quotes becomes a string slot.
* `numericGroups`: a bracketed group with a digit in it loses its brackets, and its first
  run of digits becomes a number slot.
* `slashGroups`: a bracketed group with a slash in it loses its brackets, and its slashes
  read as `or`.  Of equal groups only the first is changed.
* `numerals`: digits that stand alone become a number slot.
* `slashes`: a slash between two words or slots reads as `or`; every other is escaped.
* `brackets`: round brackets are escaped.

A slot never matches: it is neither a word character nor a digit, blank, bracket or quote.
-/
import StepStubs.Text.Word
import StepStubs.Text.Segments
import StepStubs.Text.Escape
import StepStubs.Expression.Draft

namespace StepStubs
namespace Expression

namespace Piece

def satisfies (class? : Char → Bool) : Piece → Bool
  | char c => class? c
  | slot _ => false

def isDigit : Piece → Bool := satisfies Text.isDigit

def isWord : Piece → Bool := satisfies Text.isWord

def isBlank : Piece → Bool := satisfies Text.isBlank

end Piece

open Text (Rule Segment segments replaceSpans)

/-! ## Rules

A rule answers `some k` for a span of `k + 1` pieces. -/

/-- A double quote and everything up to the next one. -/
def quotedSpan : Rule Piece := fun _ d =>
  match d with
  | .char '"' :: rest =>
    if rest.contains (.char '"') then
      some ((rest.takeWhile (· ≠ .char '"')).length + 1)
    else none
  | _ => none

/-- The pieces between an opening bracket and the first closing one after it. -/
def groupBody? (d : Draft) : Option Draft :=
  match d with
  | .char '(' :: rest =>
    if rest.contains (.char ')') then some (rest.takeWhile (· ≠ .char ')')) else none
  | _ => none

/-- A bracketed group whose body satisfies the condition. -/
def groupSpan (condition : Draft → Bool) : Rule Piece := fun _ d =>
  match groupBody? d with
  | some body => if condition body then some (body.length + 1) else none
  | none => none

def numericGroupSpan : Rule Piece := groupSpan fun body => body.any Piece.isDigit

def slashGroupSpan : Rule Piece := groupSpan fun body => body.contains (.char '/')

/-- A run of digits with no word character on either side. -/
def numeralSpan : Rule Piece := fun before d =>
  let digits := d.takeWhile Piece.isDigit
  if digits.isEmpty || before.any Piece.isWord ||
      (d.drop digits.length).head?.any Piece.isWord then none
  else some (digits.length - 1)

/-- How many pieces the word or the slot at the front of a draft has. -/
def wordOrSlotLength : Draft → Nat
  | .slot _ :: _ => 1
  | d => (d.takeWhile Piece.isWord).length

/-- Two words or slots with a slash between them. -/
def alternativeSpan : Rule Piece := fun _ d =>
  let left := wordOrSlotLength d
  match d.drop left with
  | .char '/' :: rest =>
    let right := wordOrSlotLength rest
    if left = 0 ∨ right = 0 then none else some (left + right)
  | _ => none

/-! ## Replacements -/

/-- The span without its first and its last piece. -/
def inner (span : Draft) : Draft := span.tail.dropLast

/-- The draft without its leading and trailing blanks. -/
def trimDraft (d : Draft) : Draft :=
  ((d.dropWhile Piece.isBlank).reverse.dropWhile Piece.isBlank).reverse

/-- What takes the place of a numeric group.  The text before its first run of digits
stays, but `>` reads as `greater than`, and blanks go if something follows the digits. -/
def regroup (span : Draft) : Draft :=
  let body := inner span
  let lead := body.takeWhile fun p => !p.isDigit
  let tail := (body.drop lead.length).dropWhile Piece.isDigit
  if trimDraft lead = [.char '>'] then
    Draft.ofChars "greater than ".toList ++ .slot .number :: tail
  else if lead.all Piece.isBlank && !tail.all Piece.isBlank then .slot .number :: tail
  else lead ++ .slot .number :: tail

/-- The draft with each slash reading as `or`. -/
def readSlashes (d : Draft) : Draft :=
  d.flatMap fun p => if p = .char '/' then Draft.ofChars " or ".toList else [p]

/-- The segments put together.  A group that was not seen before is opened. -/
def flattenGroups : (seen : List Draft) → List (Segment Piece) → Draft
  | _, [] => []
  | seen, .kept p :: rest => p :: flattenGroups seen rest
  | seen, .span s :: rest =>
    if seen.contains s then s ++ flattenGroups seen rest
    else readSlashes (inner s) ++ flattenGroups (s :: seen) rest

/-- One sweep over the alternatives.  The word to the right of a slash belongs to the
span, so a sweep reads every other slash of `a/b/c`. -/
def sweepAlternatives (d : Draft) : Draft := replaceSpans alternativeSpan readSlashes d

/-- Applies `f` until it changes nothing, at most `n` times. -/
def settle (f : Draft → Draft) : (n : Nat) → Draft → Draft
  | 0, d => d
  | n + 1, d => if f d = d then d else settle f n (f d)

/-- Sweeps until no alternative is left.  A sweep that changes the draft reads a slash, so
there are no more of them than slashes. -/
def settleAlternatives (d : Draft) : Draft :=
  settle sweepAlternatives (d.count (.char '/')) d

/-! ## Passes -/

inductive Pass where
  | quotes
  | numericGroups
  | slashGroups
  | numerals
  | slashes
  | brackets
  deriving Repr, DecidableEq

namespace Pass

/-- The passes in the order in which they are applied. -/
def all : List Pass := [quotes, numericGroups, slashGroups, numerals, slashes, brackets]

def apply : Pass → Draft → Draft
  | quotes, d => replaceSpans quotedSpan (fun _ => [.slot .string]) d
  | numericGroups, d => replaceSpans numericGroupSpan regroup d
  | slashGroups, d => flattenGroups [] (segments slashGroupSpan d)
  | numerals, d => replaceSpans numeralSpan (fun _ => [.slot .number]) d
  | slashes, d => Text.escape (.char '\\') (· == .char '/') (settleAlternatives d)
  | brackets, d => Text.escape (.char '\\') (fun p => p == .char '(' || p == .char ')') d

end Pass
end Expression
end StepStubs
