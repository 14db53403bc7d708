/-
Levels and formats of the log.
-/
import StepStubs.Text.Basic

namespace StepStubs
namespace Log

/-- How much an event matters, from the least. -/
inductive Level where
  | trace
  | debug
  | info
  | warn
  | error
  deriving Repr, DecidableEq

inductive Format where
  | pretty
  | compact
  | json
  deriving Repr, DecidableEq

/-- The text with its letters in lower case.  Letters beyond ASCII are left alone: none of
them has a lower case that stands in the words looked for. -/
def lowerCase (t : Text) : Text := t.map Char.toLower

namespace Level

/-- The levels, from the least. -/
def all : List Level := [trace, debug, info, warn, error]

def word : Level → Text
  | trace => "trace".toList
  | debug => "debug".toList
  | info => "info".toList
  | warn => "warn".toList
  | error => "error".toList

/-- The place of the level in the order. -/
def rank : Level → Nat
  | trace => 0
  | debug => 1
  | info => 2
  | warn => 3
  | error => 4

/-- The level that a text names, in any case.  One level has a second name. -/
def ofText? (t : Text) : Option Level :=
  let name := lowerCase t
  if name = "warning".toList then some warn else all.find? fun l => l.word = name

/-- The level that `verbose` requests for more output, or the request for quiet, ask for. -/
def ofVerbosity (verbose : Nat) (quiet : Bool) : Level :=
  match verbose with
  | 0 => if quiet then error else warn
  | 1 => info
  | 2 => debug
  | _ => trace

end Level

namespace Format

def word : Format → Text
  | pretty => "pretty".toList
  | compact => "compact".toList
  | json => "json".toList

/-- The format that a text names, in any case.  Every other text names the first one. -/
def ofText (t : Text) : Format :=
  let name := lowerCase t
  if name = json.word then json else if name = compact.word then compact else pretty

end Format
end Log
end StepStubs
