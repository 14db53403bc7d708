/-
Texts that would be read as something other than a text.

A plain scalar may stand for nothing, a truth value or a number.  Numbers are whole numbers
of at most 128 bits, in one of four bases, and decimal numbers that are finite as floating
point numbers of 64 bits.
-/
import StepStubs.Text.Basic

namespace StepStubs
namespace Yaml

/-! ## Whole numbers -/

/-- The value of a list of digits in a base, of which there has to be one. -/
def valueOfDigits? (base : Nat) (ds : Text) : Option Nat :=
  if ds = [] then none
  else ds.foldlM (fun n d => ((Text.hexDigit? d).filter (· < base)).map (n * base + ·)) 0

/-- The value of a whole number without a sign. -/
def magnitude? (t : Text) : Option Nat :=
  match t with
  | '0' :: 'x' :: ds => valueOfDigits? 16 ds
  | '0' :: 'o' :: ds => valueOfDigits? 8 ds
  | '0' :: 'b' :: ds => valueOfDigits? 2 ds
  | ds => valueOfDigits? 10 ds

/-- The largest whole number without a sign. -/
def maxWhole : Nat := Nat.pow 2 128 - 1

/-- The magnitude of the least whole number with a sign. -/
def maxNegative : Nat := Nat.pow 2 127

def isWhole (t : Text) : Bool :=
  match t with
  | '+' :: u => (magnitude? u).any (· ≤ maxWhole)
  | '-' :: u => (magnitude? u).any (· ≤ maxNegative)
  | u => (magnitude? u).any (· ≤ maxWhole)

/-! ## Decimal numbers -/

/-- A decimal number: `digits` with the point `places` before their end, times a power of
ten. -/
structure Decimal where
  digits : Text
  places : Nat
  exponent : Int
  deriving Repr, DecidableEq

/-- The exponent that a text is.  The empty text is the exponent zero. -/
def exponent? (t : Text) : Option Int :=
  match t with
  | [] => some 0
  | e :: rest =>
    if e = 'e' ∨ e = 'E' then
      match rest with
      | '-' :: ds => (valueOfDigits? 10 ds).map fun n => -(n : Int)
      | '+' :: ds => (valueOfDigits? 10 ds).map Int.ofNat
      | ds => (valueOfDigits? 10 ds).map Int.ofNat
    else none

/-- The decimal number that a text without a sign is.  There has to be a digit before the
point or after it. -/
def decimal? (t : Text) : Option Decimal :=
  let (whole, rest) := t.span Char.isDigit
  let (places, rest) :=
    match rest with
    | '.' :: more => more.span Char.isDigit
    | _ => ([], rest)
  if whole = [] ∧ places = [] then none
  else (exponent? rest).map fun e => ⟨whole ++ places, places.length, e⟩

/-- The least number that is too large for a floating point number of 64 bits. -/
def overflowBound : Nat := Nat.pow 2 1024 - Nat.pow 2 970

def Decimal.isFinite (d : Decimal) : Bool :=
  let significant := d.digits.dropWhile (· = '0')
  let mantissa := (valueOfDigits? 10 significant).getD 0
  let scale := d.exponent - d.places
  if mantissa = 0 ∨ significant.length + scale ≤ 308 then true
  else if 309 < significant.length + scale then false
  else if 0 ≤ scale then mantissa * Nat.pow 10 scale.toNat < overflowBound
  else mantissa < overflowBound * Nat.pow 10 (-scale).toNat

def infinityNames : List Text := [".inf".toList, ".Inf".toList, ".INF".toList]

/-- Is the text a decimal number, or the name of a number that is not finite? -/
def isDecimal (t : Text) : Bool :=
  match t with
  | '+' :: u => infinityNames.contains u || (decimal? u).any Decimal.isFinite
  | '-' :: u => infinityNames.contains u || (decimal? u).any Decimal.isFinite
  | u =>
    infinityNames.contains u || [".nan".toList, ".NaN".toList, ".NAN".toList].contains u ||
      (decimal? u).any Decimal.isFinite

/-! ## Other values -/

/-- The words that stand for nothing or for a truth value. -/
def reservedWords : List Text :=
  ["null".toList, "Null".toList, "NULL".toList, "~".toList, "true".toList, "True".toList,
   "TRUE".toList, "false".toList, "False".toList, "FALSE".toList]

/-- Would the text, as a plain scalar, be read as something other than a text, or look like
it? -/
def isAmbiguous (t : Text) : Bool :=
  t = [] || reservedWords.contains t || isWhole t || isDecimal t

end Yaml
end StepStubs
