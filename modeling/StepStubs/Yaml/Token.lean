/-
Tokens of a YAML text.

Indentation has become tokens of its own, and so has the key in front of a colon: the token
`key` stands before it.
-/
import StepStubs.Text.Basic

namespace StepStubs
namespace Yaml

inductive Token where
  /-- A directive with the version of the format. -/
  | version (major minor : Nat)
  /-- A directive that defines a handle for tags. -/
  | handle (name : Text)
  | documentStart
  | documentEnd
  /-- The indentation of a block sequence starts. -/
  | blockSequence
  /-- The indentation of a block mapping starts. -/
  | blockMapping
  /-- The indentation of a block collection ends. -/
  | blockEnd
  | flowSequence
  | flowSequenceEnd
  | flowMapping
  | flowMappingEnd
  | entry
  | comma
  | key
  | value
  | aliasFor (number : Nat)
  /-- An anchor, which numbers the node that follows. -/
  | anchor (number : Nat)
  /-- A tag, of which only the handle counts here. -/
  | tag (handle : Text)
  | scalar (isPlain : Bool) (text : Text)
  deriving Repr, DecidableEq

end Yaml
end StepStubs
