/-
How a run logs.

The settings come from environment variables.  A variable for the level that is set but
names no level keeps the default and still hides the general variable behind it.
-/
import StepStubs.Environment
import StepStubs.Log.Level
import StepStubs.Path.Basic

namespace StepStubs
namespace Log

structure Settings where
  /-- The least level that is logged. -/
  level : Level
  format : Format
  file : Option Path
  showsSource : Bool
  isColoured : Bool
  deriving Repr, DecidableEq

namespace Settings

/-- The settings where nothing is said. -/
def default : Settings := ⟨.warn, .pretty, none, false, true⟩

def isYes (t : Text) : Bool := lowerCase t = "true".toList || t = "1".toList

def levelOf (env : Environment) : Level :=
  match env.get? "STEPGEN_LOG_LEVEL".toList, env.get? "RUST_LOG".toList with
  | some t, _ => (Level.ofText? t).getD default.level
  | none, some t => (Level.ofText? t).getD default.level
  | none, none => default.level

def ofEnvironment (env : Environment) : Settings :=
  { level := levelOf env
    format := ((env.get? "STEPGEN_LOG_FORMAT".toList).map Format.ofText).getD default.format
    file := (env.get? "STEPGEN_LOG_FILE".toList).map Path.mk
    showsSource := (env.get? "STEPGEN_LOG_SOURCE".toList).any isYes
    isColoured := default.isColoured }

def logs (s : Settings) (l : Level) : Bool := s.level.rank ≤ l.rank

end Settings
end Log
end StepStubs
