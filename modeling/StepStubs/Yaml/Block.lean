/-
Block scalars.

The first line tells how line ends count and what becomes of those at the end; the lines
after it are the scalar, as long as they are indented as deeply as its first line.  In a
folded scalar a single line end between two lines that do not start with a gap counts as a
space.
-/
import StepStubs.Yaml.Cursor
import StepStubs.Yaml.Error

namespace StepStubs
namespace Yaml

/-- What becomes of the line ends after the last line of a block scalar. -/
inductive Chomping where
  | strip
  | clip
  | keep
  deriving Repr, DecidableEq

/-- What the first line of a block scalar says. -/
structure BlockHeader where
  chomping : Chomping
  /-- By how much the lines are indented, if it is said. -/
  indentation : Option Nat
  deriving Repr, DecidableEq

def chomping? (c : Char) : Option Chomping :=
  if c = '+' then some .keep else if c = '-' then some .strip else none

def indentation? (c : Char) : Option Nat :=
  if '1' ≤ c ∧ c ≤ '9' then some (c.toNat - '0'.toNat) else none

/-- The header whose indicators a text starts with, and the text after them. -/
def blockHeader (t : Text) : BlockHeader × Text :=
  match t with
  | [] => (⟨.clip, none⟩, [])
  | c :: rest =>
    match chomping? c, indentation? c, rest with
    | some chomping, _, d :: more =>
      match indentation? d with
      | some n => (⟨chomping, some n⟩, more)
      | none => (⟨chomping, none⟩, rest)
    | some chomping, _, [] => (⟨chomping, none⟩, [])
    | none, some n, d :: more =>
      match chomping? d with
      | some chomping => (⟨chomping, some n⟩, more)
      | none => (⟨.clip, some n⟩, rest)
    | none, some n, [] => (⟨.clip, some n⟩, [])
    | none, none, _ => (⟨.clip, none⟩, t)

structure BlockReader where
  isLiteral : Bool
  chomping : Chomping
  /-- The least column that a line may start at. -/
  least : Nat
  /-- The column that the lines start at, once it is known. -/
  column : Option Nat
  /-- The widest indentation of an empty line before the first line. -/
  widest : Nat
  /-- The text of the finished lines, latest character first. -/
  done : Text
  /-- The end of the line before. -/
  lineEnd : Option Char
  /-- The ends of the empty lines after that, latest first. -/
  emptyLines : Text
  /-- Did the line before start with a gap? -/
  afterGap : Bool
  inLine : Bool
  deriving Repr, DecidableEq

namespace BlockReader

/-- The reader before the first line. -/
def start (isLiteral : Bool) (chomping : Chomping) (least : Nat) (column : Option Nat) :
    BlockReader :=
  ⟨isLiteral, chomping, least, column, 0, [], none, [], false, false⟩

/-- Is the position `column` still in the indentation of a line? -/
def inIndentation (b : BlockReader) (column : Nat) : Bool :=
  match b.column with
  | some c => column < c
  | none => true

/-- The column that the lines start at, when the first character that is no indentation
stands at `column`. -/
def settledColumn (b : BlockReader) (column : Nat) : Nat :=
  b.column.getD (max (max b.widest column) b.least)

/-- The text with what stands for the line ends before a line that starts with `c`. -/
def joined (b : BlockReader) (c : Char) : Text :=
  if !b.isLiteral && b.lineEnd = some '\n' && !b.afterGap && !isGap c then
    if b.emptyLines.isEmpty then ' ' :: b.done else b.emptyLines ++ b.done
  else b.emptyLines ++ (b.lineEnd.toList ++ b.done)

/-- The text of the scalar after its last line. -/
def finish (b : BlockReader) : Text :=
  let closed := b.lineEnd.toList ++ b.done
  match b.chomping with
  | .strip => b.done.reverse
  | .clip => closed.reverse
  | .keep => (b.emptyLines ++ closed).reverse

/-- The reader inside a line that starts with `c`. -/
def startLine (b : BlockReader) (c : Char) (column : Nat) : BlockReader :=
  { b with
    column := some column, done := c :: b.joined c, lineEnd := none, emptyLines := [],
    afterGap := isGap c, inLine := true }

end BlockReader

def readBlock : BlockReader → Mark → (rest : Text) → Except Error (Text × Cursor)
  | b, mark, [] => .ok (b.finish, ⟨mark, []⟩)
  | b, mark, c :: rest =>
    if b.inLine then
      if isBreak c then readBlock { b with lineEnd := some c, inLine := false } (mark.after c) rest
      else readBlock { b with done := c :: b.done } (mark.after c) rest
    else if b.inIndentation mark.column ∧ c = ' ' then readBlock b (mark.after c) rest
    else if b.inIndentation mark.column ∧ c = '\t' then .error .tabInIndentation
    else if isBreak c then
      readBlock { b with widest := max b.widest mark.column, emptyLines := c :: b.emptyLines }
        (mark.after c) rest
    else if mark.column = b.settledColumn mark.column then
      readBlock (b.startLine c mark.column) (mark.after c) rest
    else .ok (b.finish, ⟨mark, c :: rest⟩)

/-- Reads a block scalar from after its indicator.  `indentation` is the column of the
collection that it belongs to. -/
def readBlockScalar (isLiteral : Bool) (indentation : Option Nat) (c : Cursor) :
    Except Error (Text × Cursor) :=
  let (header, afterHeader) := blockHeader c.rest
  let lineEnd := skipComment afterHeader
  if !atLineEnd lineEnd then .error .badBlockHeader
  else
    let lines := c.moveTo (lineEnd.drop 1)
    let least := (indentation.map (· + 1)).getD 1
    let column := header.indentation.map (indentation.getD 0 + ·)
    readBlock (.start isLiteral header.chomping least column) lines.mark lines.rest

end Yaml
end StepStubs
