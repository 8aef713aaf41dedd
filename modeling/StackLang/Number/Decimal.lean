/-
  Decimal text of floats.

  A float is written as digits with an optional point, at least one digit in
  all, and an optional exponent; or as `inf`, `infinity` or `nan` in any case.
  A sign may stand before each.  `readFloat` gives the float nearest to the
  number that the text denotes.
-/
import StackLang.Number.Integer

namespace StackLang.Number

/-- The number `digits · 10 ^ exponent`. -/
structure Decimal where
  digits : Nat
  exponent : Int
  deriving DecidableEq, Repr

/-- The float nearest to a decimal number. -/
def Decimal.toFloat (d : Decimal) : Float :=
  Float.ofScientific d.digits (decide (d.exponent < 0)) d.exponent.natAbs

/-- Why a text is not a float. -/
inductive FloatFault where
  /-- there is no text -/
  | empty
  /-- the text has another form -/
  | invalid
  deriving DecidableEq, Repr

/-- The wording of a fault. -/
def FloatFault.message : FloatFault → String
  | empty => "cannot parse float from empty string"
  | invalid => "invalid float literal"

/-- Splits off a leading sign; the first part is true for a minus sign. -/
def splitSign : List Char → Bool × List Char
  | '-' :: cs => (true, cs)
  | '+' :: cs => (false, cs)
  | cs => (false, cs)

/-- Splits off the leading digits. -/
def splitDigits (cs : List Char) : List Char × List Char :=
  (cs.takeWhile Char.isDigit, cs.dropWhile Char.isDigit)

/-- The number that a list of digits denotes. -/
def digitsValue (cs : List Char) : Nat := cs.foldl (fun n c => 10 * n + digitValue c) 0

/-- Splits off a point and the digits behind it. -/
def splitFraction : List Char → List Char × List Char
  | '.' :: cs => splitDigits cs
  | cs => ([], cs)

/-- Reads the exponent part of a number to the end of the text; no text is the
    exponent zero. -/
def readExponent? : List Char → Option Int
  | [] => some 0
  | c :: cs =>
    let (negative, ds) := splitSign cs
    if (c = 'e' || c = 'E') && !ds.isEmpty && ds.all Char.isDigit then
      some (if negative then -digitsValue ds else digitsValue ds)
    else none

/-- Reads a decimal number without a sign. -/
def readDecimal? (cs : List Char) : Option Decimal :=
  let (whole, rest) := splitDigits cs
  let (fraction, rest) := splitFraction rest
  if whole.isEmpty && fraction.isEmpty then none
  else (readExponent? rest).map fun e => ⟨digitsValue (whole ++ fraction), e - fraction.length⟩

/-- The float that is no number. -/
def notANumber : Float := Float.ofBits 0x7ff8000000000000

/-- The positive infinity. -/
def infinity : Float := Float.ofBits 0x7ff0000000000000

/-- Reads a float without a sign. -/
def readUnsigned? (cs : List Char) : Option Float :=
  let word := cs.map Char.toLower
  if word = "inf".toList || word = "infinity".toList then some infinity
  else if word = "nan".toList then some notANumber
  else (readDecimal? cs).map Decimal.toFloat

/-- Reads a float. -/
def readFloat (cs : List Char) : Except FloatFault Float :=
  if cs.isEmpty then .error .empty
  else
    let (negative, rest) := splitSign cs
    match readUnsigned? rest with
    | some x => .ok (if negative then -x else x)
    | none => .error .invalid

end StackLang.Number
