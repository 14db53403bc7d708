/-
Events as lines of the log.

In the format for machines an event is a JSON object; in the others it is its level, its
message, and its fields.
-/
import StepStubs.Json.Line
import StepStubs.Log.Event

namespace StepStubs
namespace Log

def Level.label (l : Level) : Text := l.word.map Char.toUpper

def Value.toJson : Value → Json
  | text t => .string t
  | number n => .natural n

/-- The value as it is shown after an equals sign. -/
def Value.shown : Value → Text
  | text t => t
  | number n => .ofNat n

namespace Event

def toJson (e : Event) : Json :=
  .object
    [("level".toList, .string e.level.label),
     ("fields".toList,
      .object (("message".toList, .string e.message) ::
        e.fields.map fun (name, v) => (name, v.toJson)))]

def line (f : Format) (e : Event) : Text :=
  match f with
  | .json => e.toJson.line ++ ['\n']
  | _ =>
    e.level.label ++ ' ' :: e.message ++
      (e.fields.flatMap fun (name, v) => ' ' :: name ++ '=' :: v.shown) ++ ['\n']

end Event
end Log
end StepStubs
