/-
Configurations as YAML.

A configuration is written as a mapping of two groups, each with its fields in a fixed
order.  It is read from a document with the same names; what is left out has its default,
and what has another name is passed over.  Every scalar is taken as a text, as it is
written.
-/
import StepStubs.Config.Basic
import StepStubs.Yaml.Node
import StepStubs.Yaml.Scalar

namespace StepStubs
namespace Config

open Yaml (Node)

/-! ## Writing -/

/-- One field as a line, or as several if its value has several. -/
def writeField (name : String) (value : Text) : Text :=
  "  ".toList ++ name.toList ++ ": ".toList ++ Yaml.writeScalar 4 value

/-- The values of the fields, in the order in which they are written. -/
def values (c : Config) : List Text :=
  [c.featuresDir.text, c.stepsDir.text, c.featureExtension, c.outputSuffix, c.cucumberModule]

/-- Is the last of the values that are literal blocks open-ended? -/
def isOpenEnded (c : Config) : Bool :=
  ((c.values.filter fun v => Yaml.Style.of v = .literal).getLast?.map Yaml.isOpenEnded).getD false

/-- The configuration as a text.  A last line marks the end where empty lines would count
otherwise. -/
def toYaml (c : Config) : Text :=
  "paths:\n".toList ++ writeField "features_dir" c.featuresDir.text ++
    writeField "steps_dir" c.stepsDir.text ++ "generation:\n".toList ++
    writeField "feature_extension" c.featureExtension ++
    writeField "output_suffix" c.outputSuffix ++ writeField "cucumber_module" c.cucumberModule ++
    (if c.isOpenEnded then "...\n".toList else [])

/-! ## Reading -/

def scalarText (root node : Node) : Except Yaml.Error Text :=
  match node.target root with
  | .scalar _ text => .ok text
  | _ => .error .wrongKind

/-- The members of a node that is a mapping.  A node that was left out has none. -/
def membersOf (root node : Node) : Except Yaml.Error (List (Node × Node)) :=
  match node.target root with
  | .mapping members => .ok members
  | .scalar true [] => .ok []
  | _ => .error .wrongKind

def fieldsOf (root node : Node) : Except Yaml.Error (List (Text × Node)) := do
  (← membersOf root node).mapM fun m => do return (← scalarText root m.1, m.2)

/-- The value of the field with a name, which must not come twice. -/
def field? (name : String) (fields : List (Text × Node)) : Except Yaml.Error (Option Node) :=
  match fields.filter fun f => f.1 = name.toList with
  | [] => .ok none
  | [f] => .ok (some f.2)
  | _ => .error .repeatedField

def textField (root : Node) (name : String) (fields : List (Text × Node)) (default : Text) :
    Except Yaml.Error Text := do
  match ← field? name fields with
  | some node => scalarText root node
  | none => return default

def groupOf (root : Node) (name : String) (fields : List (Text × Node)) :
    Except Yaml.Error (List (Text × Node)) := do
  match ← field? name fields with
  | some node => fieldsOf root node
  | none => return []

def ofNode (root : Node) : Except Yaml.Error Config := do
  let groups ← fieldsOf root root
  let paths ← groupOf root "paths" groups
  let generation ← groupOf root "generation" groups
  return ⟨⟨← textField root "features_dir" paths default.featuresDir.text⟩,
    ⟨← textField root "steps_dir" paths default.stepsDir.text⟩,
    ← textField root "feature_extension" generation default.featureExtension,
    ← textField root "output_suffix" generation default.outputSuffix,
    ← textField root "cucumber_module" generation default.cucumberModule⟩

/-- The configuration that a text stores.  A text without a document stores the default. -/
def ofYaml (t : Text) : Except Yaml.Error Config := do
  match ← Yaml.document? t with
  | some root => ofNode root
  | none => return default

end Config
end StepStubs
