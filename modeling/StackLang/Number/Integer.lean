/-
  Decimal text of 64-bit integers.

  * `integerText` writes an integer with the digits of its magnitude and a minus
    sign if it is negative;
  * `readInteger` reads an optional sign and at least one digit.  It works from
    left to right and stops at the first character that is no digit, or at the
    first digit that leaves the range.
-/

namespace StackLang.Number

/-- Why a text is not a 64-bit integer. -/
inductive IntegerFault where
  /-- there is no text -/
  | empty
  /-- a character that is no digit, or a sign without digits -/
  | invalidDigit
  /-- the number is above `2 ^ 63 - 1` -/
  | tooLarge
  /-- the number is below `-2 ^ 63` -/
  | tooSmall
  deriving DecidableEq, Repr

/-- The wording of a fault. -/
def IntegerFault.message : IntegerFault → String
  | empty => "cannot parse integer from empty string"
  | invalidDigit => "invalid digit found in string"
  | tooLarge => "number too large to fit in target type"
  | tooSmall => "number too small to fit in target type"

/-- The value of a decimal digit. -/
def digitValue (c : Char) : Nat := c.toNat - '0'.toNat

/-- Reads digits behind a prefix of value `n`; the digit that takes the value
    above `bound` is refused with `overflow`. -/
def readMagnitude (bound : Nat) (overflow : IntegerFault) (n : Nat) :
    List Char → Except IntegerFault Nat
  | [] => .ok n
  | c :: cs =>
    if c.isDigit then
      if 10 * n + digitValue c ≤ bound then
        readMagnitude bound overflow (10 * n + digitValue c) cs
      else .error overflow
    else .error .invalidDigit

/-- Reads an integer: an optional sign and at least one digit. -/
def readInteger : List Char → Except IntegerFault Int64
  | [] => .error .empty
  | ['+'] | ['-'] => .error .invalidDigit
  | '-' :: cs => (readMagnitude (Nat.pow 2 63) .tooSmall 0 cs).map fun n => Int64.ofInt (-n)
  | '+' :: cs => (readMagnitude (Nat.pow 2 63 - 1) .tooLarge 0 cs).map fun n => Int64.ofInt n
  | cs => (readMagnitude (Nat.pow 2 63 - 1) .tooLarge 0 cs).map fun n => Int64.ofInt n

/-- The digits of a natural number. -/
def naturalText (n : Nat) : List Char := Nat.toDigits 10 n

/-- The text of an integer. -/
def intText : Int → List Char
  | .ofNat n => naturalText n
  | .negSucc n => '-' :: naturalText (n + 1)

/-- The text of a 64-bit integer. -/
def integerText (n : Int64) : List Char := intText n.toInt

end StackLang.Number
