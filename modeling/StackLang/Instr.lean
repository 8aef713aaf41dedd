/-
  Instructions of the stack machine.

  Operations are grouped by the operand that they carry: none (`Plain`), a type
  tag (`Typed`) or a name (`Named`).  A `push` carries a tag and the text of a
  constant, a `print` the number of values to print.
-/
import StackLang.Number.Integer
import StackLang.Ty

namespace StackLang

/-- Operations without an operand. -/
inductive Plain where
  | mod
  | concat
  | and
  | or
  | not
  | itof
  | dup
  | pop
  deriving DecidableEq, Repr

/-- Operations with a type tag. -/
inductive Typed where
  | add
  | sub
  | mul
  | div
  | uminus
  | lt
  | gt
  | eq
  | read
  deriving DecidableEq, Repr

/-- Operations with the name of a variable or a label. -/
inductive Named where
  | load
  | save
  | jmp
  | fjmp
  | label
  deriving DecidableEq, Repr

/-- An operation without its operand. -/
inductive Opcode where
  | push
  | print
  | plain (op : Plain)
  | typed (op : Typed)
  | named (op : Named)
  deriving DecidableEq, Repr

/-- An instruction. -/
inductive Instr where
  | push (tag : Tag) (text : String)
  | print (count : Nat)
  | plain (op : Plain)
  | typed (op : Typed) (tag : Tag)
  | named (op : Named) (name : String)
  deriving DecidableEq, Repr

/-- The name of an operation without an operand. -/
def Plain.name : Plain → String
  | mod => "mod"
  | concat => "concat"
  | and => "and"
  | or => "or"
  | not => "not"
  | itof => "itof"
  | dup => "dup"
  | pop => "pop"

/-- The name of an operation with a type tag. -/
def Typed.name : Typed → String
  | add => "add"
  | sub => "sub"
  | mul => "mul"
  | div => "div"
  | uminus => "uminus"
  | lt => "lt"
  | gt => "gt"
  | eq => "eq"
  | read => "read"

/-- The name of an operation with a name. -/
def Named.name : Named → String
  | load => "load"
  | save => "save"
  | jmp => "jmp"
  | fjmp => "fjmp"
  | label => "label"

namespace Opcode

/-- The name of an operation. -/
def name : Opcode → String
  | push => "push"
  | print => "print"
  | plain op => op.name
  | typed op => op.name
  | named op => op.name

/-- All operations. -/
def all : List Opcode :=
  [push, print] ++
    [.mod, .concat, .and, .or, .not, .itof, .dup, .pop].map plain ++
    [.add, .sub, .mul, .div, .uminus, .lt, .gt, .eq, .read].map typed ++
    [.load, .save, .jmp, .fjmp, .label].map named

/-- The operation with the given name. -/
def ofName? (s : String) : Option Opcode := all.find? (·.name = s)

theorem mem_all (op : Opcode) : op ∈ all := by
  cases op with
  | push | print => decide
  | plain op | typed op | named op => cases op <;> decide

end Opcode

/-- The name of the label with the given number. -/
def labelName (n : Nat) : String := String.ofList ('L' :: Number.naturalText n)

namespace Instr

/-- The operation of an instruction. -/
def opcode : Instr → Opcode
  | push _ _ => .push
  | print _ => .print
  | plain op => .plain op
  | typed op _ => .typed op
  | named op _ => .named op

/-- The label that an instruction may jump to. -/
def target? : Instr → Option String
  | named .jmp l | named .fjmp l => some l
  | _ => none

/-- The label that an instruction defines. -/
def label? : Instr → Option String
  | named .label l => some l
  | _ => none

end Instr

end StackLang
