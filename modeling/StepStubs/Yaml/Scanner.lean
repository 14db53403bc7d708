/-
Scanning a YAML text into tokens.

Two things make this more than cutting the text up.  Outside flow collections indentation
has a meaning: a deeper column opens a collection and a shallower one closes it.  And a key
is known as one only when its colon comes, so the scanner remembers where the last token
that can be a key starts and puts the missing tokens there.

Each round of the scanner takes at least one character, so the length of the text bounds
the number of rounds.
-/
import StepStubs.Yaml.Block
import StepStubs.Yaml.Plain
import StepStubs.Yaml.Property
import StepStubs.Yaml.Quoted

namespace StepStubs
namespace Yaml

/-- A place where a key may have started. -/
structure KeyStart where
  required : Bool
  /-- How many tokens come before. -/
  position : Nat
  mark : Mark
  deriving Repr, DecidableEq

structure Scanner where
  cursor : Cursor
  /-- The tokens so far, latest first. -/
  tokens : List Token
  /-- The columns of the open block collections, innermost first. -/
  columns : List Nat
  keyAllowed : Bool
  /-- Where the key started that may be going on. -/
  keyStart : Option KeyStart
  /-- The same outside each open flow collection, innermost first. -/
  outerKeyStarts : List (Option KeyStart)
  /-- The number that each anchor's name stands for. -/
  anchors : List (Text × Nat)
  deriving Repr, DecidableEq

namespace Scanner

def start (t : Text) : Scanner := ⟨.start t, [], [], true, none, [], []⟩

def inFlow (s : Scanner) : Bool := !s.outerKeyStarts.isEmpty

def column (s : Scanner) : Nat := s.cursor.mark.column

def isDeeper (s : Scanner) (column : Nat) : Bool :=
  match s.columns with
  | [] => true
  | c :: _ => c < column

def push (s : Scanner) (k : Token) : Scanner := { s with tokens := k :: s.tokens }

/-- The scanner with some tokens after the first `position`.  They are given latest first. -/
def insert (s : Scanner) (position : Nat) (new : List Token) : Scanner :=
  let later := s.tokens.length - position
  { s with tokens := s.tokens.take later ++ (new ++ s.tokens.drop later) }

/-- The scanner after `n` more characters. -/
def skip (s : Scanner) (n : Nat) : Scanner := { s with cursor := s.cursor.advance n }

/-! ## Indentation -/

/-- Closes the block collections that are open at a column which is less than theirs. -/
def closeDeeper (s : Scanner) (column : Nat) : Scanner :=
  if s.inFlow then s
  else
    let closed := s.columns.takeWhile fun c => column < c
    { s with
      columns := s.columns.drop closed.length,
      tokens := closed.map (fun _ => .blockEnd) ++ s.tokens }

def closeAll (s : Scanner) : Scanner :=
  if s.inFlow then s
  else { s with columns := [], tokens := s.columns.map (fun _ => .blockEnd) ++ s.tokens }

/-- The tokens that open a block collection at a column, if none is open there, and the
scanner that knows of it. -/
def openAt (s : Scanner) (column : Nat) (k : Token) : Scanner × List Token :=
  if !s.inFlow && s.isDeeper column then ({ s with columns := column :: s.columns }, [k])
  else (s, [])

/-- Opens a block collection here, if none is open at this column. -/
def openHere (s : Scanner) (k : Token) : Scanner :=
  let (t, new) := s.openAt s.column k
  { t with tokens := new ++ t.tokens }

/-! ## Keys -/

/-- The most characters that a key may have before its colon. -/
def maxKeyLength : Nat := 1024

def isStale (s : Scanner) (k : KeyStart) : Bool :=
  k.mark.line < s.cursor.mark.line || k.mark.index + maxKeyLength < s.cursor.mark.index

/-- Forgets where a key started. -/
def forgetKey (s : Scanner) : Except Error Scanner :=
  match s.keyStart with
  | some k => if k.required then .error .keyWithoutColon else .ok { s with keyStart := none }
  | none => .ok s

def rememberKey (s : Scanner) : Except Error Scanner := do
  if s.keyAllowed then
    let forgotten ← s.forgetKey
    let required := !s.inFlow && s.columns.head? = some s.column
    return { forgotten with keyStart := some ⟨required, s.tokens.length, s.cursor.mark⟩ }
  else return s

/-- Where the key started that ends here. -/
def endingKey (s : Scanner) : Except Error (Option KeyStart) :=
  match s.keyStart with
  | some k =>
    if !s.isStale k then .ok (some k)
    else if k.required then .error .keyWithoutColon
    else .ok none
  | none => .ok none

/-! ## Between tokens -/

/-- Skips gaps, comments and line ends.  A tab is no gap where a key may start, and a new
line outside flow collections is where one may. -/
def skipBlank (inFlow : Bool) : (keyAllowed inComment : Bool) → Mark → (rest : Text) →
    Bool × Cursor
  | keyAllowed, _, mark, [] => (keyAllowed, ⟨mark, []⟩)
  | keyAllowed, inComment, mark, c :: rest =>
    if isBreak c then skipBlank inFlow (keyAllowed || !inFlow) false (mark.after c) rest
    else if inComment then skipBlank inFlow keyAllowed true (mark.after c) rest
    else if c = '#' then skipBlank inFlow keyAllowed true (mark.after c) rest
    else if c = ' ' ∨ (c = '\t' ∧ (inFlow || !keyAllowed)) ∨
        (c = '\ufeff' ∧ mark.index = 0) then
      skipBlank inFlow keyAllowed false (mark.after c) rest
    else (keyAllowed, ⟨mark, c :: rest⟩)

def toToken (s : Scanner) : Scanner :=
  let (keyAllowed, cursor) := skipBlank s.inFlow s.keyAllowed false s.cursor.mark s.cursor.rest
  { s with keyAllowed := keyAllowed, cursor := cursor }

/-! ## Tokens -/

def marker (s : Scanner) (k : Token) : Except Error Scanner := do
  let t ← s.closeAll.forgetKey
  return { t.push k with keyAllowed := false }.skip 3

def directive (s : Scanner) : Except Error Scanner := do
  let t ← s.closeAll.forgetKey
  let (k, cursor) ← readDirective t.cursor
  return { t.push k with keyAllowed := false, cursor := cursor }

def openFlow (s : Scanner) (k : Token) : Except Error Scanner := do
  let t ← s.rememberKey
  return { t.push k with
    keyAllowed := true, keyStart := none,
    outerKeyStarts := t.keyStart :: t.outerKeyStarts }.skip 1

def closeFlow (s : Scanner) (k : Token) : Except Error Scanner := do
  let t := { (← s.forgetKey).push k with keyAllowed := false }
  match t.outerKeyStarts with
  | [] => return t.skip 1
  | keyStart :: outer => return { t with keyStart := keyStart, outerKeyStarts := outer }.skip 1

def comma (s : Scanner) : Except Error Scanner := do
  return { (← s.forgetKey).push .comma with keyAllowed := true }.skip 1

def entry (s : Scanner) : Except Error Scanner := do
  if !s.inFlow && !s.keyAllowed then .error .misplacedEntry
  else
    let t ← (s.openHere .blockSequence).forgetKey
    return { t.push .entry with keyAllowed := true }.skip 1

def explicitKey (s : Scanner) : Except Error Scanner := do
  if !s.inFlow && !s.keyAllowed then .error .misplacedKey
  else
    let t ← (s.openHere .blockMapping).forgetKey
    return { t.push .key with keyAllowed := !s.inFlow }.skip 1

def value (s : Scanner) : Except Error Scanner := do
  match ← s.endingKey with
  | some k =>
    let (t, opening) := s.openAt k.mark.column .blockMapping
    let keyed := t.insert k.position (.key :: opening)
    return { keyed.push .value with keyAllowed := false, keyStart := none }.skip 1
  | none =>
    if !s.inFlow && !s.keyAllowed then .error .misplacedValue
    else return { (s.openHere .blockMapping).push .value with keyAllowed := !s.inFlow }.skip 1

/-- Scans a tag or a quoted scalar with a given reader. -/
def property (s : Scanner) (read : Cursor → Except Error (Token × Cursor)) :
    Except Error Scanner := do
  let t ← s.rememberKey
  let (k, cursor) ← read t.cursor
  return { t.push k with keyAllowed := false, cursor := cursor }

/-- Scans an anchor.  Its number is how many names there were before it, and a name that
comes again stands for the new number. -/
def anchorToken (s : Scanner) : Except Error Scanner := do
  let t ← s.rememberKey
  let (name, cursor) ← readAnchor t.cursor
  let number := t.anchors.length
  return { t.push (.anchor number) with
    keyAllowed := false, cursor := cursor,
    anchors := (name, number) :: t.anchors.filter fun a => a.1 ≠ name }

def aliasToken (s : Scanner) : Except Error Scanner := do
  let t ← s.rememberKey
  let (name, cursor) ← readAnchor t.cursor
  match t.anchors.lookup name with
  | some number => return { t.push (.aliasFor number) with keyAllowed := false, cursor := cursor }
  | none => .error .unknownAnchor

def readQuotedToken (q : Quote) (c : Cursor) : Except Error (Token × Cursor) := do
  let inside := c.advance 1
  let (text, after) ← readQuoted q (.text .empty) [] inside.mark inside.rest
  return (.scalar false text, after)

def blockScalar (s : Scanner) (isLiteral : Bool) : Except Error Scanner := do
  let t ← s.forgetKey
  let (text, after) ← readBlockScalar isLiteral t.columns.head? (t.cursor.advance 1)
  return { t.push (.scalar false text) with keyAllowed := true, cursor := after }

/-- Scans a plain scalar.  If it ends at the end of a line a key may follow. -/
def plainScalar (s : Scanner) : Except Error Scanner := do
  let t ← s.rememberKey
  let (text, gap, after) ← readPlain t.inFlow t.isDeeper .empty [] t.cursor.mark t.cursor.rest
  return { t.push (.scalar true text) with keyAllowed := gap.endsLine, cursor := after }

/-- May a plain scalar start with the character `c` before the text `rest`? -/
def startsPlain (inFlow : Bool) (c : Char) (rest : Text) : Bool :=
  if c = '-' then !(rest.head?.map isGap).getD false
  else if c = '?' ∨ c = ':' then !inFlow && !atGap rest
  else !(",[]\x7b\x7d#&*!|>'\"%@\x60\t".toList.contains c)

/-- Scans the token that starts with `c` before the text `rest`. -/
def token (s : Scanner) (c : Char) (rest : Text) : Except Error Scanner :=
  if s.column = 0 ∧ c = '%' then s.directive
  else if s.column = 0 ∧ atMarker (c :: rest) then
    s.marker (if c = '-' then .documentStart else .documentEnd)
  else if c = '[' then s.openFlow .flowSequence
  else if c = '\x7b' then s.openFlow .flowMapping
  else if c = ']' then s.closeFlow .flowSequenceEnd
  else if c = '\x7d' then s.closeFlow .flowMappingEnd
  else if c = ',' then s.comma
  else if c = '-' ∧ atGap rest then s.entry
  else if c = '?' ∧ (s.inFlow || atGap rest) then s.explicitKey
  else if c = ':' ∧ (s.inFlow || atGap rest) then s.value
  else if c = '*' then s.aliasToken
  else if c = '&' then s.anchorToken
  else if c = '!' then s.property (readTag s.inFlow)
  else if c = '|' ∧ !s.inFlow then s.blockScalar true
  else if c = '>' ∧ !s.inFlow then s.blockScalar false
  else if c = '\'' then s.property (readQuotedToken .single)
  else if c = '"' then s.property (readQuotedToken .double)
  else if startsPlain s.inFlow c rest then s.plainScalar
  else .error .badStart

/-- Scans at most `rounds` tokens. -/
def scanWithin : (rounds : Nat) → Scanner → Except Error (List Token)
  | 0, _ => .error .badStart
  | rounds + 1, s =>
    let next := s.toToken
    match next.cursor.rest with
    | [] => do return (← next.closeAll.forgetKey).tokens.reverse
    | c :: rest => do scanWithin rounds (← (next.closeDeeper next.column).token c rest)

end Scanner

def tokens (t : Text) : Except Error (List Token) :=
  if !t.all isAllowed then .error .controlCharacter
  else Scanner.scanWithin (t.length + 1) (.start (unifyBreaks t))

end Yaml
end StepStubs
