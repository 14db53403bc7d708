/-
Cutting a list at the spans that a rule finds.

Every change to a step text and the replacement of references in a configuration go
the same way: find the leftmost spans, none overlapping another, and put something in
their place.  `segments` does the finding.  It scans once, so a replacement never moves
what is still to be found, and it recurses on the list with a count of the elements that
the last span still covers, so the kernel reduces it.

The rule looks at what stands before the scanned position as well as at what follows,
since a numeral has to stand alone on both sides.  Nothing is lost or reordered by the
cutting: `flatten_segments` puts the segments together again.
-/

namespace StepStubs
namespace Text

variable {α : Type}

/-- A piece of a cut list: one element that no span covers, or a whole span. -/
inductive Segment (α : Type) where
  | kept (a : α)
  | span (as : List α)
  deriving Repr, DecidableEq

def Segment.elements : Segment α → List α
  | .kept a => [a]
  | .span as => as

/-- Says whether a span starts at a position, from the element before the position and
the list from the position on.  `some k` is a span of `k + 1` elements. -/
abbrev Rule (α : Type) := Option α → List α → Option Nat

/-- The segments from a position on: `before` is the element before it, and `covered` is
how many elements from it on belong to the span found last. -/
@[specialize] def segmentsFrom (rule : Rule α) :
    (before : Option α) → (covered : Nat) → List α → List (Segment α)
  | _, _, [] => []
  | _, covered + 1, a :: as => segmentsFrom rule (some a) covered as
  | before, 0, a :: as =>
    match rule before (a :: as) with
    | some k => .span (a :: as.take k) :: segmentsFrom rule (some a) k as
    | none => .kept a :: segmentsFrom rule (some a) 0 as

/-- The segments of a list: its leftmost spans, and the elements outside them. -/
@[inline] def segments (rule : Rule α) (as : List α) : List (Segment α) :=
  segmentsFrom rule none 0 as

/-- The segments put together, with each span replaced. -/
@[specialize] def joinSegments (replacement : List α → List α) : List (Segment α) → List α
  | [] => []
  | .kept a :: rest => a :: joinSegments replacement rest
  | .span s :: rest => replacement s ++ joinSegments replacement rest

/-- The list with each span replaced. -/
@[inline] def replaceSpans (rule : Rule α) (replacement : List α → List α) (as : List α) :
    List α :=
  joinSegments replacement (segments rule as)

/-! ## Nothing is lost -/

theorem flatten_segmentsFrom (rule : Rule α) (as : List α) :
    ∀ (before : Option α) (covered : Nat),
      (segmentsFrom rule before covered as).flatMap Segment.elements = as.drop covered := by
  induction as with
  | nil => intro before covered; cases covered <;> rfl
  | cons a as ih =>
    intro before covered
    cases covered with
    | succ covered => simpa [segmentsFrom] using ih (some a) covered
    | zero =>
      rw [segmentsFrom]
      split
      · next k _ => simp [Segment.elements, ih (some a) k]
      · simp [Segment.elements, ih (some a) 0]

theorem flatten_segments (rule : Rule α) (as : List α) :
    (segments rule as).flatMap Segment.elements = as := by
  simpa [segments] using flatten_segmentsFrom rule as none 0

end Text
end StepStubs
