/-
  The parts of a float.

  A finite float is `± m · 2 ^ e` with a natural mantissa `m < 2 ^ 53` and an
  exponent `e ≥ -1074`; the other floats are the two infinities and "not a
  number".  `Binary64.ofFloat` reads the parts off the 64 bits.

  * `truncate` converts to a 64-bit integer, going toward zero and stopping at
    the ends of the range;
  * `ofInteger` is the float nearest to a 64-bit integer.
-/

namespace StackLang.Number

/-- A float, taken apart. -/
inductive Binary64 where
  /-- not a number -/
  | nan
  /-- an infinity -/
  | infinite (negative : Bool)
  /-- `± mantissa · 2 ^ exponent` -/
  | finite (negative : Bool) (mantissa : Nat) (exponent : Int)
  deriving DecidableEq, Repr

namespace Binary64

/-- The parts of the float with the given 64 bits: one sign bit, eleven bits of
    exponent, and 52 bits of the fraction. -/
def ofBits (bits : Nat) : Binary64 :=
  let negative := decide (Nat.pow 2 63 ≤ bits)
  let field : Nat := bits / Nat.pow 2 52 % Nat.pow 2 11
  let fraction : Nat := bits % Nat.pow 2 52
  if field = 2047 then
    if fraction = 0 then .infinite negative else .nan
  else if field = 0 then .finite negative fraction (-1074)
  else .finite negative (Nat.pow 2 52 + fraction) (field - 1075)

/-- The parts of a float. -/
def ofFloat (x : Float) : Binary64 := ofBits x.toBits.toNat

/-- The integer part of `m · 2 ^ e`. -/
def wholePart (m : Nat) (e : Int) : Nat :=
  if 0 ≤ e then m * Nat.pow 2 e.toNat else m / Nat.pow 2 (-e).toNat

end Binary64

/-- The nearest 64-bit integer to a mathematical integer: itself, or an end of
    the range. -/
def clampInteger (n : Int) : Int64 :=
  if n < -Int.pow 2 63 then Int64.minValue
  else if Int.pow 2 63 ≤ n then Int64.maxValue
  else Int64.ofInt n

/-- Converts a float to an integer: toward zero, an end of the range if it is
    out of range, and zero if it is no number. -/
def truncate (x : Float) : Int64 :=
  match Binary64.ofFloat x with
  | .nan => 0
  | .infinite negative => if negative then Int64.minValue else Int64.maxValue
  | .finite negative m e =>
    let n := Binary64.wholePart m e
    clampInteger (if negative then -n else n)

/-- The float nearest to an integer. -/
def ofInteger (n : Int64) : Float := Float.ofInt n.toInt

end StackLang.Number
