/-
  Types and the typing rules of operators.

  * `Tag` is the type of a run-time value, `Ty` a static type: one of these, or
    the sentinel `error` of an expression that has none;
  * `Ty.widen`, `Ty.relation`, `Ty.equality`, `Ty.logic` and `Ty.join` give the
    type of a result from the types of two operands, `Ty.negate` and `Ty.not`
    from that of one; a rule that does not apply gives `error`;
  * `Ty.accepts` says which values a variable takes.
-/

namespace StackLang

/-- The type of a run-time value. -/
inductive Tag where
  | int
  | float
  | bool
  | string
  deriving DecidableEq, Repr

/-- A static type. -/
inductive Ty where
  | int
  | float
  | bool
  | string
  /-- the expression has no type -/
  | error
  deriving DecidableEq, Repr

namespace Tag

/-- The static type of the values with this tag. -/
def ty : Tag → Ty
  | int => .int
  | float => .float
  | bool => .bool
  | string => .string

/-- The letter that stands for the tag in code. -/
def letter : Tag → Char
  | int => 'I'
  | float => 'F'
  | bool => 'B'
  | string => 'S'

/-- The tag as text. -/
def text (t : Tag) : String := String.singleton t.letter

/-- Reads a tag. -/
def ofText? (s : String) : Option Tag :=
  if s = "I" then some int
  else if s = "F" then some float
  else if s = "B" then some bool
  else if s = "S" then some string
  else none

/-- The wording for a text that is no tag. -/
def unknownMessage (s : String) : String := s!"unknown type tag `{s}`"

@[simp] theorem ofText?_text (t : Tag) : ofText? t.text = some t := by
  cases t <;> decide

end Tag

namespace Ty

/-- The name of a type. -/
def name : Ty → String
  | int => "int"
  | float => "float"
  | bool => "bool"
  | string => "string"
  | error => "<error>"

/-- Reads the keyword of a type; the sentinel has none. -/
def ofKeyword? (s : String) : Option Ty :=
  if s = "int" then some int
  else if s = "float" then some float
  else if s = "bool" then some bool
  else if s = "string" then some string
  else none

/-- The wording for a text that is no keyword of a type. -/
def unknownMessage (s : String) : String := s!"unknown type keyword `{s}`"

/-- The tag of the values of a type. -/
def tag? : Ty → Option Tag
  | int => some .int
  | float => some .float
  | bool => some .bool
  | string => some .string
  | error => none

/-- The type is a number type. -/
def isNumeric : Ty → Bool
  | int | float => true
  | _ => false

/-- The type is the sentinel. -/
def isError : Ty → Bool
  | error => true
  | _ => false

@[simp] theorem tag?_ty (t : Tag) : t.ty.tag? = some t := by cases t <;> rfl

@[simp] theorem tag?_eq_none {t : Ty} : t.tag? = none ↔ t = error := by cases t <;> simp [tag?]

@[simp] theorem isError_iff {t : Ty} : t.isError = true ↔ t = error := by
  cases t <;> simp [isError]

/-! ## Rules for two operands -/

/-- Arithmetic: two ints give an int, other numbers a float. -/
def widen : Ty → Ty → Ty
  | int, int => int
  | int, float | float, int | float, float => float
  | _, _ => error

/-- The remainder is for ints only. -/
def remainder : Ty → Ty → Ty
  | int, int => int
  | _, _ => error

/-- Concatenation is for strings only. -/
def concat : Ty → Ty → Ty
  | string, string => string
  | _, _ => error

/-- Numbers are ordered. -/
def relation (l r : Ty) : Ty := if l.isNumeric && r.isNumeric then bool else error

/-- Values of one type, and numbers, can be equal. -/
def equality (l r : Ty) : Ty :=
  if l.isError || r.isError then error
  else if l = r || (l.isNumeric && r.isNumeric) then bool
  else error

/-- Logical operators are for bools only. -/
def logic : Ty → Ty → Ty
  | bool, bool => bool
  | _, _ => error

/-- The common type of two branches: their own, or float for two numbers. -/
def join (l r : Ty) : Ty :=
  if l.isError || r.isError then error
  else if l = r then l
  else if l.isNumeric && r.isNumeric then float
  else error

/-! ## Rules for one operand -/

/-- The minus sign keeps the type of a number. -/
def negate (t : Ty) : Ty := if t.isNumeric then t else error

/-- Negation is for bools only. -/
def not : Ty → Ty
  | bool => bool
  | _ => error

/-- A variable takes values of its own type, and a float variable also ints. -/
def accepts (target value : Ty) : Bool := target = value || (target = float && value = int)

end Ty

end StackLang
