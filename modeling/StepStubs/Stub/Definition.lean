/-
The stub of one step: a call that registers a handler for the step's pattern, with an
argument for each parameter and one for the data table, and a comment as its body.
-/
import StepStubs.Stub.TemplateLiteral
import StepStubs.Step.Compiled

namespace StepStubs
namespace Stub

/-- The arguments that the parameters ask for, numbered from `n` on. -/
def argumentsFrom : (n : Nat) → List Parameter → List Text
  | _, [] => []
  | n, p :: ps =>
    ("arg".toList ++ Text.ofNat n ++ ": ".toList ++ p.typeName) :: argumentsFrom (n + 1) ps

def tableArgument : Text := "dataTable: DataTable".toList

def signature (parameters : List Parameter) (hasTable : Bool) : Text :=
  Text.join ", ".toList
    (argumentsFrom 0 parameters ++ if hasTable then [tableArgument] else [])

def tableComment : Text :=
  ("    // <DataTable> argument is detected:\n" ++
   "    // - With column headers: use DataTable.rowsHash(), which outputs an object " ++
   "containing key-value pairs for each row (e.g. \x7b key1: value, key2: value \x7d).\n" ++
   "    // - With row headers: use DataTable.hashes(), which outputs an array of objects " ++
   "(e.g. [\x7b key1: value, key2: value \x7d]).\n").toList

def definition (s : CompiledStep) : Text :=
  s.phase.word ++ "(\x60".toList ++ TemplateLiteral.encode s.pattern ++ "\x60, (".toList ++
    signature s.parameters s.hasTable ++ ") => \x7b\n    // ".toList ++ s.phase.comment ++
    "\n".toList ++ (if s.hasTable then tableComment else []) ++ "\x7d);\n".toList

end Stub
end StepStubs
