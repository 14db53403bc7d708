/-
The file system.

There is one tree and a directory from which relative paths start.  A path is followed name
by name; whatever it goes through has to be a directory, also when nothing but a slash or a
dot follows, and `..` goes back up and stays at the root.  There are no links, so the
location of something is found once and for all.

An operation gives the changed file system or the cause for which nothing was changed.  It depends
on the tree alone: access is never denied and the disk is never full, but no file can be larger than
`maxFileSize`.
-/
import StepStubs.Files.Cause
import StepStubs.Files.Tree
import StepStubs.Path.Basic
import StepStubs.Text.Utf8

namespace StepStubs
namespace Files

/-- A file tree and the location of the directory from which relative paths start. -/
structure FileSystem where
  root : Node
  workingDirectory : Location

namespace FileSystem

def at? (fs : FileSystem) (l : Location) : Option Node := fs.root.at? l

/-- The file system after what stands at a location is changed. -/
def alter (fs : FileSystem) (l : Location) (f : Option Node → Option Node) : FileSystem :=
  { fs with root := fs.root.alter f l }

/-- The file system with `node` at a location. -/
def put (fs : FileSystem) (l : Location) (node : Node) : FileSystem := fs.alter l fun _ => some node

def erase (fs : FileSystem) (l : Location) : FileSystem := fs.alter l fun _ => none

/-! ## Following a path -/

/-- The most bytes that a name may have. -/
def maxNameLength : Nat := 255

/-- The most bytes that a path may have. -/
def maxPathLength : Nat := 4095

/-- Where the path starts. -/
def startOf (fs : FileSystem) (p : Path) : Location :=
  if p.isAbsolute then [] else fs.workingDirectory

/-- The path, if it is one that can be followed at all. -/
def checkPath (p : Path) : Except Cause Unit :=
  if p.text.contains '\x00' then .error .nullCharacter
  else if p.text = [] then .error .notFound
  else if Text.byteLength p.text > maxPathLength then .error .nameTooLong
  else .ok ()

def directoryAt (fs : FileSystem) (here : Location) : Except Cause Node :=
  match fs.at? here with
  | some (.directory es) => .ok (.directory es)
  | some (.file _) => .error .notDirectory
  | none => .error .notFound

/-- Where the component `name` leads from the directory `here`.  It has to exist. -/
def enterName (fs : FileSystem) (here : Location) (name : Name) : Except Cause Location := do
  let directory ← fs.directoryAt here
  if Text.byteLength name > maxNameLength then .error .nameTooLong
  else if (directory.child? name).isSome then .ok (here ++ [name])
  else .error .notFound

/-- Where one part of a path leads from `here`. -/
def enter (fs : FileSystem) (here : Location) (part : Text) : Except Cause Location :=
  match Path.innerComponent? part with
  | some (.normal name) => fs.enterName here name
  | some .parent => do
    let _ ← fs.directoryAt here
    return here.dropLast
  | _ => do
    let _ ← fs.directoryAt here
    return here

def locate (fs : FileSystem) (p : Path) : Except Cause Location := do
  checkPath p
  p.parts.foldlM fs.enter (fs.startOf p)

def lookup (fs : FileSystem) (p : Path) : Except Cause Node := do
  match fs.at? (← fs.locate p) with
  | some node => .ok node
  | none => .error .notFound

def contains (fs : FileSystem) (p : Path) : Bool := (fs.lookup p).isOk

def isDirectory (fs : FileSystem) (p : Path) : Bool :=
  match fs.lookup p with
  | .ok node => node.isDirectory
  | .error _ => false

/-! ## The place that a path names

An operation that makes or replaces something follows the path up to its last part only. -/

structure Place where
  directory : Location
  /-- The name in the directory, unless the path ends in a dot, in two, or at the root. -/
  name? : Option Name
  /-- Is there a slash after the last part? -/
  closed : Bool
  deriving Repr, DecidableEq

/-- The parts of a path without the empty ones after its last slash. -/
def openParts (p : Path) : List Text := (p.parts.reverse.dropWhile List.isEmpty).reverse

def placeOf (fs : FileSystem) (p : Path) : Except Cause Place := do
  checkPath p
  let parts := openParts p
  let directory ← parts.dropLast.foldlM fs.enter (fs.startOf p)
  let _ ← fs.directoryAt directory
  match parts.getLast?.bind Path.innerComponent? with
  | some (.normal name) =>
    if Text.byteLength name > maxNameLength then .error .nameTooLong
    else .ok ⟨directory, some name, parts.length < p.parts.length⟩
  | _ => .ok ⟨directory, none, parts.length < p.parts.length⟩

/-! ## Operations -/

def createDirectory (fs : FileSystem) (p : Path) : Except Cause FileSystem := do
  let place ← fs.placeOf p
  match place.name? with
  | none => .error .taken
  | some name =>
    let l := place.directory ++ [name]
    if (fs.at? l).isSome then .error .taken else .ok (fs.put l .emptyDirectory)

/-- The location of the file that is opened for writing under a path, and what the file
holds.  A file that is not there is held to be empty. -/
def openFile (fs : FileSystem) (p : Path) : Except Cause (Location × ByteArray) := do
  let place ← fs.placeOf p
  match place.name? with
  | none => .error .isDirectory
  | some name =>
    let l := place.directory ++ [name]
    if place.closed then .error .isDirectory
    else
      match fs.at? l with
      | some (.directory _) => .error .isDirectory
      | some (.file content) => .ok (l, content)
      | none => .ok (l, .empty)

/-- Makes an empty file, or empties the file that is there. -/
def createFile (fs : FileSystem) (p : Path) : Except Cause FileSystem := do
  let (l, _) ← fs.openFile p
  return fs.put l (.file .empty)

/-- The most bytes that a file may have: blocks of 4096 bytes, numbered with 32 bits. -/
def maxFileSize : Nat := 0xFFFFFFFF * 4096

/-- Puts bytes at the end of a file, which is made if it is not there. -/
def appendFile (fs : FileSystem) (p : Path) (bytes : ByteArray) : Except Cause FileSystem := do
  let (l, content) ← fs.openFile p
  if content.size + bytes.size > maxFileSize then .error .fileTooLarge
  else return fs.put l (.file (content ++ bytes))

/-- Makes a file that holds the bytes, or replaces the file that is there. -/
def writeFile (fs : FileSystem) (p : Path) (bytes : ByteArray) : Except Cause FileSystem := do
  (← fs.createFile p).appendFile p bytes

def contentOf (fs : FileSystem) (p : Path) : Except Cause ByteArray := do
  match ← fs.lookup p with
  | .file content => .ok content
  | .directory _ => .error .isDirectory

def removeFile (fs : FileSystem) (p : Path) : Except Cause FileSystem := do
  let l ← fs.locate p
  match fs.at? l with
  | some (.file _) => .ok (fs.erase l)
  | some (.directory _) => .error .isDirectory
  | none => .error .notFound

/-- Gives the file `source` the path `target`.  A file that is there is replaced. -/
def moveFile (fs : FileSystem) (source target : Path) : Except Cause FileSystem := do
  let old ← fs.placeOf source
  let new ← fs.placeOf target
  match old.name?, new.name? with
  | some oldName, some newName =>
    match fs.at? (old.directory ++ [oldName]) with
    | none => .error .notFound
    | some (.directory _) => .error .isDirectory
    | some (.file content) =>
      if old.closed || new.closed then .error .notDirectory
      else
        match fs.at? (new.directory ++ [newName]) with
        | some (.directory _) => .error .isDirectory
        | _ =>
          .ok ((fs.erase (old.directory ++ [oldName])).put (new.directory ++ [newName])
            (.file content))
  | _, _ => .error .busy

end FileSystem
end Files
end StepStubs
