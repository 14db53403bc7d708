/-
Paths.

A path is kept as it was written, since it is shown that way, and is read as a list of
components.  Reading forgets repeated slashes, a slash at the end, and every `.` except one
at the very front of a relative path.  Nothing here looks at a file system.
-/
import StepStubs.Text.Basic

namespace StepStubs

/-- A path as it was written, with slashes between its parts. -/
structure Path where
  text : Text
  deriving Repr, DecidableEq

namespace Path

inductive Component where
  | root
  | current
  | parent
  | normal (name : Text)
  deriving Repr, DecidableEq

def Component.text : Component → Text
  | root => ['/']
  | current => ['.']
  | parent => ['.', '.']
  | normal name => name

def ofString (s : String) : Path := ⟨s.toList⟩

/-! ## Components -/

def isAbsolute (p : Path) : Bool := p.text.head? = some '/'

def parts (p : Path) : List Text := p.text.splitOn '/'

/-- The component of a part that is not at the front of the path. -/
def innerComponent? (part : Text) : Option Component :=
  if part = [] ∨ part = ['.'] then none
  else if part = ['.', '.'] then some .parent
  else some (.normal part)

/-- The component that a path has because of its front: its root, or a leading `.`. -/
def frontComponent? (p : Path) : Option Component :=
  if p.isAbsolute then some .root
  else if p.parts.head? = some ['.'] then some .current
  else none

def components (p : Path) : List Component :=
  p.frontComponent?.toList ++ p.parts.filterMap innerComponent?

/-! ## Joining -/

/-- The path `q` as seen from `p`.  An absolute `q` stands for itself. -/
def join (p q : Path) : Path :=
  if q.isAbsolute then q
  else if p.text = [] ∨ p.text.getLast? = some '/' then ⟨p.text ++ q.text⟩
  else ⟨p.text ++ '/' :: q.text⟩

def ofComponents (cs : List Component) : Path := cs.foldl (fun p c => p.join ⟨c.text⟩) ⟨[]⟩

/-! ## The last component -/

def fileName? (p : Path) : Option Text :=
  match p.components.getLast? with
  | some (.normal name) => some name
  | _ => none

/-- A name cut at its last dot: what stands before the dot, and what stands after it. -/
def cutAtLastDot? (name : Text) : Option (Text × Text) :=
  if name.contains '.' then
    let after := (name.reverse.takeWhile (· ≠ '.')).reverse
    some (name.take (name.length - after.length - 1), after)
  else none

/-- A file name's stem and extension.  A name with no dot, or with its only dot at the
front, is all stem. -/
def splitName (name : Text) : Text × Option Text :=
  match cutAtLastDot? name with
  | some (before, after) => if before = [] then (name, none) else (before, some after)
  | none => (name, none)

/-- The file name of the path without its extension. -/
def stem? (p : Path) : Option Text := p.fileName?.map fun name => (splitName name).1

def extension? (p : Path) : Option Text := p.fileName?.bind fun name => (splitName name).2

/-! ## The parent -/

/-- The front of the path's text that no cutting at its end takes away. -/
def frontText (p : Path) : Text := if p.frontComponent?.isSome then p.text.take 1 else []

/-- The parts without those at the end that are no components. -/
def dropIdleEnd (ps : List Text) : List Text :=
  (ps.reverse.dropWhile fun part => (innerComponent? part).isNone).reverse

/-- The path without its last component.  The root and the empty path have no parent. -/
def parent? (p : Path) : Option Path :=
  match p.components.getLast? with
  | none => none
  | some .root => none
  | some .current => some ⟨[]⟩
  | some _ =>
    let body := (p.text.drop p.frontText.length).splitOn '/'
    some ⟨p.frontText ++ Text.join ['/'] (dropIdleEnd (dropIdleEnd body).dropLast)⟩

end Path
end StepStubs
