/-
The parameters of a step: a quoted text or a whole number.
-/
import StepStubs.Text.Basic

namespace StepStubs

inductive Parameter where
  | string
  | number
  deriving Repr, DecidableEq

namespace Parameter

def placeholder : Parameter → Text
  | string => "\x7bstring\x7d".toList
  | number => "\x7bint\x7d".toList

def typeName : Parameter → Text
  | string => "string".toList
  | number => "number".toList

def ofTypeName? (name : Text) : Option Parameter :=
  [string, number].find? fun p => p.typeName = name

end Parameter
end StepStubs
