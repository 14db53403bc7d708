/-
The environment variables that a run can see.
-/
import StepStubs.Text.Basic

namespace StepStubs

structure Environment where
  bindings : List (Text × Text)
  deriving Repr, DecidableEq

/-- The value of a variable, if it is set. -/
def Environment.get? (env : Environment) (name : Text) : Option Text := env.bindings.lookup name

end StepStubs
