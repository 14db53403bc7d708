/-
Loading and saving a configuration.

A configuration is kept in the project, or in a file that is named explicitly and then has
to exist.  When it is loaded its references are replaced first; what is blank after that is
the default configuration.
-/
import StepStubs.Config.Problem
import StepStubs.Config.Reference
import StepStubs.Config.Stored
import StepStubs.Files.Reading
import StepStubs.Files.Writing

namespace StepStubs
namespace Config

/-- Why a configuration could not be loaded or saved. -/
inductive Failure where
  | notFound (path : Path)
  | inaccessible (cause : Files.Cause)
  /-- The text is no YAML, or not of the right form. -/
  | malformed (line : Option Nat) (message : Text)
  | invalid (message : Text)
  | unsetVariable (name : Text)
  deriving Repr, DecidableEq

def Failure.message : Failure → Text
  | notFound p => "config file not found: ".toList ++ p.text
  | inaccessible cause => "failed to read config: ".toList ++ cause.message
  | malformed line m =>
    "invalid YAML at line ".toList ++ (line.map Text.ofNat).getD "unknown".toList ++
      ": ".toList ++ m
  | invalid m => "validation error: ".toList ++ m
  | unsetVariable name => "environment variable not found: ".toList ++ name

/-- Where a configuration is kept. -/
inductive Source where
  | project (root : Path)
  | file (path : Path)
  deriving Repr, DecidableEq

def Source.path : Source → Path
  | project root => (root.join (.ofString ".stepgen")).join (.ofString "config.yaml")
  | file p => p

def Source.isRequired : Source → Bool
  | project _ => false
  | file _ => true

def checked (c : Config) : Except Failure Config :=
  match c.problem? with
  | some problem => .error (.invalid problem.message)
  | none => .ok c

/-- The configuration that a text stores, after its references are replaced. -/
def ofText (env : Environment) (t : Text) : Except Failure Config := do
  let expanded ← (expand env t).mapError .unsetVariable
  if Text.allBlank expanded then return default
  else
    let config ← (ofYaml expanded).mapError fun e => .malformed none e.message
    config.checked

def load (fs : Files.FileSystem) (env : Environment) (source : Source) :
    Except Failure Config := do
  if !fs.contains source.path then
    if source.isRequired then .error (.notFound source.path) else return default
  else
    let t ← (fs.textOf source.path).mapError .inaccessible
    ofText env t

def save (source : Source) (c : Config) : Files.Operation Failure Unit :=
  ExceptT.adapt .inaccessible do
    match source.path.parent? with
    | some parent => Files.createDirectories parent
    | none => pure ()
    Files.change fun fs => fs.writeFile source.path (Text.utf8 c.toYaml)

end Config
end StepStubs
