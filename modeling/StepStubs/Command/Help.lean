/-
What the program says about itself, and about arguments that it does not understand.
-/
import StepStubs.Command.Arguments

namespace StepStubs
namespace Command

def versionText : Text := "stepgen 0.1.0\n".toList

/-- A variable with its value, as the description of an option shows it. -/
def variableNote (env : Environment) (name : String) : Text :=
  "[env: ".toList ++ name.toList ++ "=".toList ++ (env.get? name.toList).getD [] ++ "]\n".toList

def helpText (env : Environment) : Text :=
  versionText ++
  ("Generates Cucumber step definition stubs from Gherkin feature files\n" ++
   "\n" ++
   "Usage: stepgen [OPTIONS]\n" ++
   "\n" ++
   "Options:\n" ++
   "  -v, --verbose...                 Increase verbosity level\n" ++
   "  -q, --quiet                      Suppress non-error output\n" ++
   "      --project-dir <PROJECT_DIR>  Project directory (defaults to the current directory) "
   ).toList ++
  variableNote env "STEPGEN_PROJECT_DIR" ++
  "  -c, --config <CONFIG>            Path to configuration file ".toList ++
  variableNote env "STEPGEN_CONFIG" ++
  ("      --format <FORMAT>            Output format (text, json) [default: text] " ++
   "[possible values: text, json]\n" ++
   "  -h, --help                       Print help\n" ++
   "  -V, --version                    Print version\n").toList

/-- What the program prints when it does not run for its arguments. -/
def Refusal.answer (env : Environment) : Refusal → Text
  | help => helpText env
  | version => versionText
  | _ => []

/-- What is wrong with the arguments, unless they ask for help or the version. -/
def Refusal.complaint : Refusal → Text
  | help => []
  | version => []
  | invalidValue => "error: an option has no value, or one that is not allowed\n".toList
  | unknownArgument => "error: an argument is unknown\n".toList
  | conflict => "error: an option is repeated, or contradicts another\n".toList
  | tooManyValues => "error: a flag has a value\n".toList

end Command
end StepStubs
