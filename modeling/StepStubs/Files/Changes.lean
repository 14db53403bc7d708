/-
What is new or different in a file system.
-/
import StepStubs.Files.System

namespace StepStubs
namespace Files

namespace Node

mutual

/-- Everything at and below the node: each location with the bytes of the file there, or
with nothing if there is a directory.  A directory comes before what it holds. -/
def contents : Node → List (Location × Option ByteArray)
  | file bytes => [([], some bytes)]
  | directory es => ([], none) :: entryContents es

/-- Everything in a list of entries. -/
def entryContents : List (Name × Node) → List (Location × Option ByteArray)
  | [] => []
  | (name, node) :: es =>
    (contents node).map (fun c => (name :: c.1, c.2)) ++ entryContents es

end

def bytes? : Node → Option ByteArray
  | file bytes => some bytes
  | directory _ => none

end Node

/-- Does the location have nothing, or something else than the content given? -/
def FileSystem.lacks (fs : FileSystem) (l : Location) (content : Option ByteArray) : Bool :=
  match fs.at? l with
  | some node => node.bytes? != content
  | none => true

/-- The locations of `new` at which `old` has something else or nothing, with what they
hold. -/
def FileSystem.changes (old new : FileSystem) : List (Location × Option ByteArray) :=
  new.root.contents.filter fun c => old.lacks c.1 c.2

end Files
end StepStubs
