/-
File trees.

A node is a file with its bytes or a directory with named entries.  The entries are listed
in no particular order, and where two had the same name only the first could be reached;
`WellFormed` says that there are no two.  A location is the list of names on the way from
the root, so looking something up and changing something are recursions on a list.

`alter` is the one operation that changes a tree.  It replaces, adds or removes what stands
at a location and leaves everything else in its place.
-/
import StepStubs.Text.Basic

namespace StepStubs
namespace Files

/-- The name of a file or directory in the directory that holds it. -/
abbrev Name := Text

abbrev Location := List Name

/-- A file or a directory. -/
inductive Node where
  | file (content : ByteArray)
  | directory (entries : List (Name × Node))

def entry? (name : Name) : List (Name × Node) → Option Node
  | [] => none
  | (n, node) :: es => if n = name then some node else entry? name es

/-- The entries after the one with the name is changed by `f`, which is told what is there
and says what shall be there. -/
def alterEntry (name : Name) (f : Option Node → Option Node) :
    List (Name × Node) → List (Name × Node)
  | [] => ((f none).map fun new => (name, new)).toList
  | (n, node) :: es =>
    if n = name then ((f (some node)).map fun new => (name, new)).toList ++ es
    else (n, node) :: alterEntry name f es

namespace Node

/-- The directory without entries. -/
def emptyDirectory : Node := directory []

def isDirectory : Node → Bool
  | directory _ => true
  | file _ => false

def child? (name : Name) : Node → Option Node
  | directory es => entry? name es
  | file _ => none

def at? : Location → Node → Option Node
  | [], node => some node
  | name :: rest, node => (node.child? name).bind (at? rest)

/-- The node after what stands at a location below it is changed by `f`.  Where the way to
the location ends early there is nothing to change.  The node itself can be replaced but
not removed. -/
def alter (f : Option Node → Option Node) : Location → Node → Node
  | [], node => (f (some node)).getD node
  | [name], directory es => directory (alterEntry name f es)
  | name :: rest, directory es => directory (alterEntry name (Option.map (alter f rest)) es)
  | _ :: _, file content => file content

/-! ## The names in a tree -/

mutual

/-- Do the entries of each directory have different names? -/
def WellFormed : Node → Prop
  | file _ => True
  | directory es => (es.map Prod.fst).Nodup ∧ EntriesWellFormed es

/-- Is each of the entries well-formed? -/
def EntriesWellFormed : List (Name × Node) → Prop
  | [] => True
  | (_, node) :: es => WellFormed node ∧ EntriesWellFormed es

end

/-! ## Walking a tree -/

/-- Does the first name come before the second, or are they the same?  Names are compared
character by character, which is also the order of their bytes. -/
def nameLe : Name → Name → Bool
  | [], _ => true
  | _ :: _, [] => false
  | a :: as, b :: bs => if a = b then nameLe as bs else decide (a.toNat < b.toNat)

/-- The lists found below each of several names, in the order of the names, with the name
put in front of each location. -/
def inNameOrder (found : List (Name × List Location)) : List Location :=
  (found.mergeSort fun a b => nameLe a.1 b.1).flatMap fun below =>
    below.2.map fun location => below.1 :: location

mutual

/-- The locations of the files below the node, each directory's entries in the order of
their names. -/
def fileLocations : Node → List Location
  | file _ => [[]]
  | directory es => inNameOrder (entryFileLocations es)

/-- For each entry its name, and the locations of the files below it. -/
def entryFileLocations : List (Name × Node) → List (Name × List Location)
  | [] => []
  | (name, node) :: es => (name, fileLocations node) :: entryFileLocations es

end

end Node
end Files
end StepStubs
