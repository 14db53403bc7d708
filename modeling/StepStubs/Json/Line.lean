/-
Writing a JSON value on one line, with no space between its parts.
-/
import StepStubs.Json.Pretty

namespace StepStubs
namespace Json

mutual

def line : Json → Text
  | array elements => '[' :: Text.join [','] (elementLines elements) ++ [']']
  | object members => '\x7b' :: Text.join [','] (memberLines members) ++ ['\x7d']
  | v => write 0 v

/-- The elements of an array, each on one line. -/
def elementLines : List Json → List Text
  | [] => []
  | v :: vs => line v :: elementLines vs

/-- The members of an object, each on one line. -/
def memberLines : List (Text × Json) → List Text
  | [] => []
  | (name, v) :: ms => (writeString name ++ ':' :: line v) :: memberLines ms

end

end Json
end StepStubs
