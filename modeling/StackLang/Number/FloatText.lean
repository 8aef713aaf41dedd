/-
  The text of a float.

  A float is written with its shortest digits.  From `1e-4` up to `1e16` the
  form is positional and always has a fraction (`4.0`); other magnitudes have
  one digit before the point, no empty fraction, and an exponent (`1.5e-7`).
  Zero is `0.0` or `-0.0`; the others are `inf`, `-inf` and `NaN`.
-/
import StackLang.Number.Binary64
import StackLang.Number.Shortest

namespace StackLang.Number

/-- The least power of ten that is written positionally. -/
def leastPositional : Int := -4

/-- The least power of ten that is written with an exponent. -/
def leastExponential : Int := 16

/-- Positional form of `0.ds · 10 ^ point`: the point stands behind `point`
    digits. -/
def positionalText (ds : List Char) (point : Int) : List Char :=
  if point ≤ 0 then "0.".toList ++ List.replicate (-point).toNat '0' ++ ds
  else if point.toNat < ds.length then ds.take point.toNat ++ '.' :: ds.drop point.toNat
  else ds ++ List.replicate (point.toNat - ds.length) '0' ++ ".0".toList

/-- Exponential form of `d.ds · 10 ^ exponent`. -/
def exponentialText (ds : List Char) (exponent : Int) : List Char :=
  let fraction := if ds.length ≤ 1 then [] else '.' :: ds.drop 1
  ds.take 1 ++ fraction ++ 'e' :: intText exponent

/-- The text of a positive decimal. -/
def Decimal.text (d : Decimal) : List Char :=
  let ds := naturalText d.digits
  let power := d.exponent + ds.length - 1
  if leastPositional ≤ power && power < leastExponential then positionalText ds (power + 1)
  else exponentialText ds power

/-- The text of a float. -/
def floatText (x : Float) : List Char :=
  let sign (negative : Bool) : List Char := if negative then ['-'] else []
  match Binary64.ofFloat x with
  | .nan => "NaN".toList
  | .infinite negative => sign negative ++ "inf".toList
  | .finite negative 0 _ => sign negative ++ "0.0".toList
  | .finite negative m e => sign negative ++ (shortest m e).text

end StackLang.Number
