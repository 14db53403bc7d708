/-
Writing a text as a scalar.

A text is written plainly if it reads back as the same text.  Otherwise it is put between
single quotes, unless it has characters that cannot stand there, and then between double
quotes with escapes.  A text of several lines is written as a literal block.
-/
import StepStubs.Yaml.Character
import StepStubs.Yaml.Number

namespace StepStubs
namespace Yaml

/-! ## What stands in a text -/

def isPrintable (c : Char) : Bool :=
  Text.inRanges [(0x0A, 0x0A), (0x20, 0x7E), (0xA0, 0xD7FF), (0xE000, 0xFEFE), (0xFF00, 0xFFFD),
    (0x10000, 0x10FFFF)] c.toNat

/-- Are there two neighbours of which the first satisfies `p` and the second `q`? -/
def hasPair (p q : Char → Bool) : Text → Bool
  | a :: b :: t => (p a && q b) || hasPair p q (b :: t)
  | _ => false

def isSpace (c : Char) : Bool := c = ' '

def startsWithSpace (t : Text) : Bool := (t.head?.map isSpace).getD false

def endsWithSpace (t : Text) : Bool := (t.getLast?.map isSpace).getD false

def isIndicator (c : Char) : Bool := ",[]\x7b\x7d#&*!|>'\"%@\x60".toList.contains c

def startsWithIndicator (t : Text) : Bool :=
  t.take 3 = ['-', '-', '-'] || t.take 3 = ['.', '.', '.'] ||
    match t with
    | c :: rest => isIndicator c || ((c = '?' || c = ':' || c = '-') && atGap rest)
    | [] => false

def hasPlainEnd (t : Text) : Bool :=
  hasPair (· = ':') (fun c => isSpace c || isBreak c) t || t.getLast? = some ':' ||
    hasPair (fun c => isSpace c || isBreak c) (· = '#') t

/-! ## The style of a scalar -/

inductive Style where
  | plain
  | singleQuoted
  | doubleQuoted
  | literal
  deriving Repr, DecidableEq

def allowsPlain (t : Text) : Bool :=
  t.all isPrintable && !t.any isBreak && !startsWithSpace t && !endsWithSpace t &&
    !startsWithIndicator t && !hasPlainEnd t

def allowsSingleQuotes (t : Text) : Bool :=
  t.all isPrintable && !hasPair isBreak isSpace t && !hasPair isSpace isBreak t

def allowsLiteral (t : Text) : Bool :=
  t.all isPrintable && !endsWithSpace t && !hasPair isSpace isBreak t

/-- The style in which a text is written. -/
def Style.of (t : Text) : Style :=
  if t.contains '\n' then (if allowsLiteral t then .literal else .doubleQuoted)
  else if !isAmbiguous t && allowsPlain t then .plain
  else if allowsSingleQuotes t then .singleQuoted
  else .doubleQuoted

/-! ## Writing -/

/-- The upper-case hexadecimal digits of a number, at least `width` of them. -/
def hexDigits (width n : Nat) : Text :=
  let digits := (Nat.toDigits 16 n).map Char.toUpper
  List.replicate (width - digits.length) '0' ++ digits

def escapeChar (c : Char) : Text :=
  match c with
  | '\x00' => "\\0".toList
  | '\x07' => "\\a".toList
  | '\x08' => "\\b".toList
  | '\t' => "\\t".toList
  | '\n' => "\\n".toList
  | '\x0b' => "\\v".toList
  | '\x0c' => "\\f".toList
  | '\r' => "\\r".toList
  | '\x1b' => "\\e".toList
  | '"' => "\\\"".toList
  | '\\' => "\\\\".toList
  | '\x85' => "\\N".toList
  | '\u2028' => "\\L".toList
  | '\u2029' => "\\P".toList
  | _ =>
    if isPrintable c then [c]
    else if c.toNat ≤ 0xFF then "\\x".toList ++ hexDigits 2 c.toNat
    else if c.toNat ≤ 0xFFFF then "\\u".toList ++ hexDigits 4 c.toNat
    else "\\U".toList ++ hexDigits 8 c.toNat

def doubleQuote (t : Text) : Text := '"' :: t.flatMap escapeChar ++ ['"']

/-- The spaces in front of a line that is `depth` columns in. -/
def indentation (depth : Nat) : Text := List.replicate depth ' '

/-- The lines of a text with each line `depth` columns in.  `atStart` says whether a line
starts here; an empty line is not indented. -/
def indentLines (depth : Nat) (write : Char → Text) : (atStart : Bool) → Text → Text
  | _, [] => []
  | atStart, c :: t =>
    if isBreak c then c :: indentLines depth write true t
    else
      (if atStart then indentation depth else []) ++ write c ++ indentLines depth write false t

def doubleSingleQuote (c : Char) : Text := if c = '\'' then ['\'', '\''] else [c]

/-- The text between single quotes.  What follows a line end is `depth` columns in. -/
def singleQuote (depth : Nat) (t : Text) : Text :=
  '\'' :: indentLines depth doubleSingleQuote false t ++
    (if (t.getLast?.map isBreak).getD false then indentation depth else []) ++ ['\'']

/-- Does the text end with an empty line, or consist of one? -/
def endsWithEmptyLine (t : Text) : Bool :=
  match t.reverse with
  | [c] => isBreak c
  | c :: d :: _ => isBreak c && isBreak d
  | [] => false

/-- The mark that says what becomes of the line ends at the end of a literal block. -/
def chompingMark (t : Text) : Text :=
  if !(t.getLast?.map isBreak).getD false then ['-']
  else if endsWithEmptyLine t then ['+']
  else []

/-- The mark that gives the indentation of a literal block whose first line does not show
it. -/
def indentationMark (t : Text) : Text :=
  match t with
  | c :: _ => if isSpace c || isBreak c then ['2'] else []
  | [] => []

/-- The text as a literal block, `depth` columns in.  A line end after its last line is
part of it. -/
def literalBlock (depth : Nat) (t : Text) : Text :=
  '|' :: indentationMark t ++ chompingMark t ++ ('\n' :: indentLines depth List.singleton true t)

/-- The text as the value of a member, with the line end after it. -/
def writeScalar (depth : Nat) (t : Text) : Text :=
  match Style.of t with
  | .plain => t ++ ['\n']
  | .singleQuoted => singleQuote depth t ++ ['\n']
  | .doubleQuoted => doubleQuote t ++ ['\n']
  | .literal =>
    if (t.getLast?.map isBreak).getD false then literalBlock depth t
    else literalBlock depth t ++ ['\n']

/-- Is the text written so that empty lines after it would belong to it? -/
def isOpenEnded (t : Text) : Bool := Style.of t = .literal && endsWithEmptyLine t

end Yaml
end StepStubs
