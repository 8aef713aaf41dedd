/-
  Run-time values.

  * `Value.text` is what a program prints, `Value.read` reads an input of a
    given type and `Value.ofLiteral` a constant in code;
  * `toInt?`, `toFloat?`, `toBool?` and `toString?` take the value as an operand:
    the two number types convert into each other, the others stay as they are.
-/
import StackLang.Number.FloatText
import StackLang.Text.Blank
import StackLang.Ty

namespace StackLang

/-- A run-time value. -/
inductive Value where
  | int (n : Int64)
  | float (x : Float)
  | bool (b : Bool)
  | string (s : String)
  deriving DecidableEq

/-- Why a text denotes no value of the wanted type. -/
inductive ConstantFault where
  | integer (cause : Number.IntegerFault)
  | float (cause : Number.FloatFault)
  /-- the text, without the blanks at its ends, is not a truth value -/
  | bool (text : String)
  deriving DecidableEq, Repr

/-- The wording of a fault. -/
def ConstantFault.message : ConstantFault → String
  | integer cause => cause.message
  | float cause => cause.message
  | bool text => s!"`{text}` is not a boolean literal"

/-- Reads a truth value. -/
def readBool (cs : List Char) : Except ConstantFault Bool :=
  if cs = "true".toList then .ok true
  else if cs = "false".toList then .ok false
  else .error (.bool (String.ofList cs))

/-- Drops the first and the last character if both are quotes and there are two
    of them. -/
def unquote : List Char → List Char
  | '"' :: cs => if cs.getLast? = some '"' then cs.dropLast else '"' :: cs
  | cs => cs

namespace Value

/-- The type of a value. -/
def tag : Value → Tag
  | int _ => .int
  | float _ => .float
  | bool _ => .bool
  | string _ => .string

/-- The text of a value. -/
def text : Value → String
  | int n => String.ofList (Number.integerText n)
  | float x => String.ofList (Number.floatText x)
  | bool b => if b then "true" else "false"
  | string s => s

/-! ## Operands -/

/-- The value as an int; the fraction of a float is dropped. -/
def toInt? : Value → Option Int64
  | int n => some n
  | float x => some (Number.truncate x)
  | _ => none

/-- The value as a float. -/
def toFloat? : Value → Option Float
  | int n => some (Number.ofInteger n)
  | float x => some x
  | _ => none

/-- The value as a truth value. -/
def toBool? : Value → Option Bool
  | bool b => some b
  | _ => none

/-- The value as a string. -/
def toString? : Value → Option String
  | string s => some s
  | _ => none

/-! ## Reading -/

/-- Reads a value of a type.  Blanks around numbers and truth values do not
    count; a string is taken as it is. -/
def read (tag : Tag) (s : String) : Except ConstantFault Value :=
  let cs := Text.trim s.toList
  match tag with
  | .int => (Number.readInteger cs).mapError .integer |>.map .int
  | .float => (Number.readFloat cs).mapError .float |>.map .float
  | .bool => (readBool cs).map .bool
  | .string => .ok (.string s)

/-- Reads a constant in code: a string loses its quotes. -/
def ofLiteral (tag : Tag) (s : String) : Except ConstantFault Value :=
  match tag with
  | .string => .ok (.string (String.ofList (unquote s.toList)))
  | tag => read tag s

end Value

end StackLang
