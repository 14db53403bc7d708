/-
Normal paths and relative paths.

`normalize` resolves `.` and `..` on the text alone: a stack of components is built from
left to right, and `..` takes the name before it away.  Above the root there is nothing to
take, and `..` at the front of a relative path stays.  The empty stack is written `.`, and
that dot counts as a component when the normal path is read again.
-/
import StepStubs.Path.Basic

namespace StepStubs
namespace Path

/-- The stack, last component first, after one more component. -/
def push (stack : List Component) : Component → List Component
  | .root => [.root]
  | .current => stack
  | .normal name => .normal name :: stack
  | .parent =>
    match stack with
    | .normal _ :: rest => rest
    | .root :: _ => stack
    | _ => .parent :: stack

/-- The path of a list of components, a dot if there is none. -/
def ofComponentsOrDot (cs : List Component) : Path :=
  if (ofComponents cs).text = [] then ⟨['.']⟩ else ofComponents cs

/-- The path with every `.` and `..` resolved that can be. -/
def normalize (p : Path) : Path := ofComponentsOrDot (p.components.foldl push []).reverse

/-- Two lists without the elements that they both start with. -/
def dropCommon : List Component → List Component → List Component × List Component
  | a :: as, b :: bs => if a = b then dropCommon as bs else (a :: as, b :: bs)
  | as, bs => (as, bs)

/-- The way from `base` to `p`: up from what is left of the base, then down. -/
def relativeTo (p base : Path) : Path :=
  let (down, up) := dropCommon p.normalize.components base.normalize.components
  ofComponentsOrDot (up.map (fun _ => .parent) ++ down)

def display (p : Path) : Text := Text.join ['/'] (p.components.map Component.text)

/-- The way from `base` to `p` as reports and stub files show it. -/
def displayRelative (p base : Path) : Text := (p.relativeTo base).display

end Path
end StepStubs
