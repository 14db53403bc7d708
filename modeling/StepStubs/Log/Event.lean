/-
What a run logs.

An event has a level, a message and fields.  Fields are texts or numbers; the message is
the same for every event of a kind, except where a run fails.
-/
import StepStubs.Log.Level
import StepStubs.Path.Basic

namespace StepStubs
namespace Log

inductive Value where
  | text (t : Text)
  | number (n : Nat)
  deriving Repr, DecidableEq

inductive Event where
  | loadingConfig (path : Path)
  | missingDirectory (root : Path)
  | discovered (root : Path) (count : Nat)
  | found (directory : Path) (count : Nat)
  | skippedLine (line : Nat) (text : Text)
  | openDocString
  | compiled (source : Text) (total unique : Nat)
  | generated (source output : Text)
  | overwriting (output source : Text)
  | finished (files distinct : Nat)
  | failed (code message : Text)
  deriving Repr, DecidableEq

namespace Event

def level : Event → Level
  | loadingConfig _ => .debug
  | missingDirectory _ => .debug
  | discovered _ _ => .debug
  | found _ _ => .info
  | skippedLine _ _ => .debug
  | openDocString => .debug
  | compiled _ _ _ => .debug
  | generated _ _ => .info
  | overwriting _ _ => .warn
  | finished _ _ => .info
  | failed _ _ => .error

def message : Event → Text
  | loadingConfig _ => "loading configuration".toList
  | missingDirectory _ => "feature directory does not exist".toList
  | discovered _ _ => "discovered feature files".toList
  | found _ _ => "found feature files".toList
  | skippedLine _ _ => "skipping unrecognized line".toList
  | openDocString => "doc string left open at end of file".toList
  | compiled _ _ _ => "compiled steps".toList
  | generated _ _ => "generated step definitions".toList
  | overwriting _ _ => "output file already written in this run; overwriting".toList
  | finished _ _ => "generation complete".toList
  | failed _ m => m

def fields : Event → List (Text × Value)
  | loadingConfig p => [("path".toList, .text p.text)]
  | missingDirectory root => [("root".toList, .text root.text)]
  | discovered root count => [("root".toList, .text root.text), ("count".toList, .number count)]
  | found directory count =>
    [("count".toList, .number count), ("dir".toList, .text directory.text)]
  | skippedLine line t => [("line".toList, .number line), ("text".toList, .text t)]
  | openDocString => []
  | compiled source total unique =>
    [("source".toList, .text source), ("total".toList, .number total),
     ("unique".toList, .number unique)]
  | generated source output =>
    [("source".toList, .text source), ("output".toList, .text output)]
  | overwriting output source =>
    [("output".toList, .text output), ("source".toList, .text source)]
  | finished files distinct =>
    [("files".toList, .number files), ("distinct".toList, .number distinct)]
  | failed code _ => [("code".toList, .text code)]

end Event
end Log
end StepStubs
