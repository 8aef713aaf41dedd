/-
  The shortest decimal that reads back.

  All reals between the midpoints to the two neighbours of a float round to it;
  the midpoints themselves do so if its mantissa is even.  Among the multiples
  of a power of ten, the two around the float are the candidates, and the
  coarsest power with a candidate in the interval wins: it has the fewest digits.
  Of two candidates the nearer one is taken, and of two equally near the larger.

  * `Interval` holds the float and the ends of its interval over a common
    denominator, so that all tests are exact;
  * `Interval.pick?` tests the candidates of one power of ten;
  * `shortest` tries the powers from coarse to fine.
-/
import StackLang.Number.Decimal

namespace StackLang.Number

/-- A positive number with the ends of an interval around it, as numerators over
    one denominator. -/
structure Interval where
  low : Nat
  value : Nat
  high : Nat
  denominator : Nat
  /-- the ends belong to the interval -/
  closed : Bool
  deriving DecidableEq, Repr

namespace Interval

/-- The numbers that round to the float `m · 2 ^ e`, in quarters of the step
    between its neighbours.  Below a power of two the neighbours are twice as
    dense, except at the least exponent. -/
def ofFinite (m : Nat) (e : Int) : Interval :=
  let scale := Nat.pow 2 (e - 2).toNat
  let gap := if m = Nat.pow 2 52 && decide (-1074 < e) then 1 else 2
  { low := (4 * m - gap) * scale
    value := 4 * m * scale
    high := (4 * m + 2) * scale
    denominator := Nat.pow 2 (2 - e).toNat
    closed := m % 2 = 0 }

/-- The exponent of the largest power of ten that is at most the value. -/
def order (i : Interval) : Int :=
  if i.denominator ≤ i.value then ((naturalText (i.value / i.denominator)).length : Int) - 1
  else -((naturalText ((i.denominator + i.value - 1) / i.value - 1)).length : Int)

/-- The candidate of the power `10 ^ k`, if one lies in the interval. -/
def pick? (i : Interval) (k : Int) : Option Nat :=
  let unit := Nat.pow 10 k.toNat * i.denominator
  let scale := Nat.pow 10 (-k).toNat
  let inside (d : Nat) : Bool :=
    if i.closed then i.low * scale ≤ d * unit && d * unit ≤ i.high * scale
    else i.low * scale < d * unit && d * unit < i.high * scale
  let below := i.value * scale / unit
  let nearBelow := 2 * (i.value * scale % unit) < unit
  match inside below, inside (below + 1) with
  | true, true => some (if nearBelow then below else below + 1)
  | true, false => some below
  | false, true => some (below + 1)
  | false, false => none

end Interval

/-- The shortest decimal that rounds to `m · 2 ^ e`, for a positive mantissa.
    Eighteen powers of ten are enough, since seventeen digits tell all floats
    apart. -/
def shortest (m : Nat) (e : Int) : Decimal :=
  let i := Interval.ofFinite m e
  let found := (List.range 18).findSome? fun (n : Nat) =>
    let k := i.order + 1 - n
    (i.pick? k).map fun d => Decimal.mk d k
  found.getD ⟨0, 0⟩

end StackLang.Number
