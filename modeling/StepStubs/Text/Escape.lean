/-
Escaping by backslash.

A backslash escapes the element after it, and pairs are taken from the left, so of two
backslashes the first escapes the second.  `escape` puts a backslash before each special
element that is not escaped yet; `isEscaped` says that there is none.  Both carry one bit,
whether the element before was an escaping backslash, and recurse on the list.

The elements are characters of a text or pieces of a draft, so the backslash and the
special elements are arguments.
-/

namespace StepStubs
namespace Text

variable {α : Type} [DecidableEq α]

/-- The list with a backslash before each unescaped special element, from a position on.
`escaped` says whether the element at the position is escaped. -/
def escapeFrom (backslash : α) (special : α → Bool) : (escaped : Bool) → List α → List α
  | _, [] => []
  | true, a :: as => a :: escapeFrom backslash special false as
  | false, a :: as =>
    if a = backslash then a :: escapeFrom backslash special true as
    else if special a then backslash :: a :: escapeFrom backslash special false as
    else a :: escapeFrom backslash special false as

/-- The list with a backslash before each unescaped special element. -/
def escape (backslash : α) (special : α → Bool) (as : List α) : List α :=
  escapeFrom backslash special false as

def isEscapedFrom (backslash : α) (special : α → Bool) : (escaped : Bool) → List α → Bool
  | _, [] => true
  | true, _ :: as => isEscapedFrom backslash special false as
  | false, a :: as =>
    if a = backslash then isEscapedFrom backslash special true as
    else !special a && isEscapedFrom backslash special false as

def isEscaped (backslash : α) (special : α → Bool) (as : List α) : Bool :=
  isEscapedFrom backslash special false as

end Text
end StepStubs
