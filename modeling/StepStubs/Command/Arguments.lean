/-
The arguments of the command line.

Arguments are read from left to right.  An option that waits for its value takes the next
argument unless that starts with a dash; whether the value is a good one, and whether the
option came before, is checked only when the next option or the end is reached.  A request
for help or for the version ends the reading at once.  After two dashes alone nothing may
follow.  An option that is not given can be given by an environment variable.
-/
import StepStubs.Environment
import StepStubs.Log.Level
import StepStubs.Path.Basic

namespace StepStubs
namespace Command

inductive OutputFormat where
  | text
  | json
  deriving Repr, DecidableEq

def OutputFormat.ofWord? (w : Text) : Option OutputFormat :=
  if w = "text".toList then some text else if w = "json".toList then some json else none

structure Arguments where
  /-- How often more output was asked for, at most 255. -/
  verbose : Nat
  quiet : Bool
  projectDir : Option Path
  config : Option Path
  format : OutputFormat
  deriving Repr, DecidableEq

namespace Arguments

def level (a : Arguments) : Log.Level := .ofVerbosity a.verbose a.quiet

def showsProgress (a : Arguments) : Bool := !a.quiet && a.format = .text

end Arguments

inductive Refusal where
  | help
  | version
  /-- A value is missing, empty or not allowed. -/
  | invalidValue
  | unknownArgument
  /-- An option is repeated, or contradicts another. -/
  | conflict
  /-- A flag has a value. -/
  | tooManyValues
  deriving Repr, DecidableEq

/-- The exit status of a refusal.  Help and the version are no errors. -/
def Refusal.status : Refusal → Nat
  | help => 0
  | version => 0
  | _ => 2

inductive Setting where
  | projectDir
  | config
  | format
  deriving Repr, DecidableEq

/-- An option that takes none. -/
inductive Flag where
  | verbose
  | quiet
  | help
  | version
  deriving Repr, DecidableEq

inductive Switch where
  | flag (f : Flag)
  | setting (s : Setting)
  deriving Repr, DecidableEq

def Switch.ofName? (name : Text) : Option Switch :=
  [("verbose".toList, flag .verbose), ("quiet".toList, flag .quiet), ("help".toList, flag .help),
   ("version".toList, flag .version), ("project-dir".toList, setting .projectDir),
   ("config".toList, setting .config), ("format".toList, setting .format)].lookup name

def Switch.ofLetter? (c : Char) : Option Switch :=
  [('v', flag .verbose), ('q', flag .quiet), ('h', flag .help), ('V', flag .version),
   ('c', setting .config)].lookup c

def Setting.variable? : Setting → Option Text
  | projectDir => some "STEPGEN_PROJECT_DIR".toList
  | config => some "STEPGEN_CONFIG".toList
  | format => none

structure Reading where
  verbose : Nat
  quiet : Bool
  projectDir : Option Path
  config : Option Path
  format : Option OutputFormat
  /-- The option that was read last, if it is not checked yet, with its value if it has
  one. -/
  waiting : Option (Setting × Option Text)
  /-- Were there two dashes alone? -/
  isClosed : Bool
  deriving Repr, DecidableEq

namespace Reading

/-- Before the first argument. -/
def start : Reading := ⟨0, false, none, none, none, none, false⟩

def isSet (r : Reading) : Setting → Bool
  | .projectDir => r.projectDir.isSome
  | .config => r.config.isSome
  | .format => r.format.isSome

def pathOf (value : Text) : Except Refusal Path :=
  if value = [] then .error .invalidValue else .ok ⟨value⟩

def formatOf (value : Text) : Except Refusal OutputFormat :=
  match OutputFormat.ofWord? value with
  | some f => .ok f
  | none => .error .invalidValue

def give (r : Reading) (s : Setting) (value : Text) : Except Refusal Reading := do
  if r.isSet s then .error .conflict
  else
    match s with
    | .projectDir => return { r with projectDir := some (← pathOf value) }
    | .config => return { r with config := some (← pathOf value) }
    | .format => return { r with format := some (← formatOf value) }

def settle (r : Reading) : Except Refusal Reading :=
  match r.waiting with
  | none => .ok r
  | some (_, none) => .error .invalidValue
  | some (s, some value) => { r with waiting := none }.give s value

/-- Reads an option without a value. -/
def readFlag (r : Reading) (f : Flag) : Except Refusal Reading := do
  let settled ← r.settle
  match f with
  | .verbose => return { settled with verbose := min (settled.verbose + 1) 255 }
  | .quiet => if settled.quiet then .error .conflict else return { settled with quiet := true }
  | .help => .error .help
  | .version => .error .version

/-- Reads an option that takes a value, with the value if it is attached. -/
def readSetting (r : Reading) (s : Setting) (value : Option Text) : Except Refusal Reading := do
  let settled ← r.settle
  match value with
  | some v => settled.give s v
  | none => return { settled with waiting := some (s, none) }

/-- Reads an argument after two dashes: a name, and a value if there is an equals sign. -/
def readLong (r : Reading) (t : Text) : Except Refusal Reading :=
  let (name, rest) := t.span (· ≠ '=')
  match Switch.ofName? name, rest with
  | none, _ => .error .unknownArgument
  | some (.flag f), [] => r.readFlag f
  | some (.flag _), _ :: _ => .error .tooManyValues
  | some (.setting s), [] => r.readSetting s none
  | some (.setting s), _ :: value => r.readSetting s (some value)

/-- The value that is attached to an option of one letter, with or without an equals sign. -/
def attached (rest : Text) : Option Text :=
  match rest with
  | [] => none
  | '=' :: value => some value
  | value => some value

/-- Reads the letters after one dash. -/
def readLetters (r : Reading) : Text → Except Refusal Reading
  | [] => .ok r
  | c :: rest =>
    match Switch.ofLetter? c with
    | none => .error .unknownArgument
    | some (.setting s) => r.readSetting s (attached rest)
    | some (.flag f) => do (← r.readFlag f).readLetters rest

def readValue (r : Reading) (t : Text) : Except Refusal Reading :=
  match r.waiting with
  | some (s, none) => .ok { r with waiting := some (s, some t) }
  | _ => .error .unknownArgument

def read (r : Reading) (t : Text) : Except Refusal Reading :=
  if r.isClosed then .error .unknownArgument
  else
    match t with
    | ['-', '-'] => .ok { r with isClosed := true }
    | '-' :: '-' :: rest => r.readLong rest
    | '-' :: c :: rest => r.readLetters (c :: rest)
    | _ => r.readValue t

/-- Takes the value of an option that was not given from the environment. -/
def fromEnvironment (env : Environment) (r : Reading) (s : Setting) : Except Refusal Reading :=
  match s.variable?.bind env.get? with
  | some value => if r.isSet s then .ok r else r.give s value
  | none => .ok r

def finish (r : Reading) (env : Environment) : Except Refusal Arguments := do
  let settled ← r.settle
  let given ← [Setting.projectDir, Setting.config].foldlM (fromEnvironment env) settled
  if given.quiet ∧ 0 < given.verbose then .error .conflict
  else
    return ⟨given.verbose, given.quiet, given.projectDir, given.config,
      given.format.getD .text⟩

end Reading

/-- What the arguments after the name of the program ask for. -/
def Arguments.ofList (args : List Text) (env : Environment) : Except Refusal Arguments := do
  (← args.foldlM Reading.read .start).finish env

end Command
end StepStubs
