/-
  Execution of one instruction.

  A state holds the index of the next instruction, the operand stack, the store,
  the inputs and the output.  `execute` carries out an instruction, which may
  fail; what it did to the state before the failure stays done.

  The output is any writer, and only printing asks for what a writer can do.

  Operands are popped from right to left.  An instruction that asks for a number
  of one type converts a number of the other.  Arithmetic on ints wraps around.
-/
import StackLang.Machine.Input
import StackLang.Machine.Link
import StackLang.Machine.Sink
import StackLang.Machine.Store

namespace StackLang

/-- The state of a machine that writes to a `W`.  The top of the stack is the head of the
    list. -/
structure State (W : Type := Sink) where
  ip : Nat := 0
  stack : List Value := []
  store : Store := {}
  input : Input := .queue []
  sink : W
  deriving DecidableEq

/-- Actions on the state that may fail. -/
abbrev Exec (W : Type) := EStateM Fault (State W)

variable {W : Type}

namespace Exec

/-! ## The operand stack -/

/-- Pushes a value. -/
def push (v : Value) : Exec W Unit := modify fun s => { s with stack := v :: s.stack }

/-- Pops a value. -/
def pop : Exec W Value := do
  let s ← get
  match s.stack with
  | [] => throw .stackUnderflow
  | v :: rest =>
    set { s with stack := rest }
    return v

/-- Pops a value as an operand of an operation.  A value of the wrong type is
    lost. -/
def popAs {α : Type} (op : Opcode) (expected : Operand) (view : Value → Option α) : Exec W α := do
  let v ← pop
  match view v with
  | some a => return a
  | none => throw (.operandMismatch op expected v.tag)

/-- Pops an int. -/
def popInt (op : Opcode) : Exec W Int64 := popAs op .int Value.toInt?

/-- Pops a float. -/
def popFloat (op : Opcode) : Exec W Float := popAs op .numeric Value.toFloat?

/-- Pops a truth value. -/
def popBool (op : Opcode) : Exec W Bool := popAs op .bool Value.toBool?

/-- Pops a string. -/
def popString (op : Opcode) : Exec W String := popAs op .string Value.toString?

/-- Pops two operands and pushes the result of an operation on them. -/
def binary {α : Type} (operand : Exec W α) (f : α → α → Except Fault Value) : Exec W Unit := do
  let r ← operand
  let l ← operand
  match f l r with
  | .ok v => push v
  | .error e => throw e

/-! ## Operations -/

/-- The quotient of two ints, rounded toward zero. -/
def divide (l r : Int64) : Except Fault Value :=
  if r = 0 then .error .divisionByZero else .ok (.int (l / r))

/-- The remainder of two ints, with the sign of the first. -/
def remainder (l r : Int64) : Except Fault Value :=
  if r = 0 then .error .divisionByZero else .ok (.int (l % r))

/-- Refuses a type that an operation is not defined for. -/
def rejectTag (op : Typed) (tag : Tag) : Exec W Unit := throw (.malformed (.rejectedTag op tag))

/-- An operation on two numbers of one type. -/
def onNumbers (op : Typed) (onInts : Int64 → Int64 → Except Fault Value)
    (onFloats : Float → Float → Value) (tag : Tag) : Exec W Unit :=
  match tag with
  | .int => binary (popInt (.typed op)) onInts
  | .float => binary (popFloat (.typed op)) fun l r => .ok (onFloats l r)
  | _ => rejectTag op tag

/-- The comparison of two values of one type. -/
def equals (tag : Tag) : Exec W Unit :=
  match tag with
  | .int => binary (popInt (.typed .eq)) fun l r => .ok (.bool (l == r))
  | .float => binary (popFloat (.typed .eq)) fun l r => .ok (.bool (l == r))
  | .bool => binary (popBool (.typed .eq)) fun l r => .ok (.bool (l == r))
  | .string => binary (popString (.typed .eq)) fun l r => .ok (.bool (l == r))

/-- The minus sign. -/
def negate (tag : Tag) : Exec W Unit :=
  match tag with
  | .int => do push (.int (-(← popInt (.typed .uminus))))
  | .float => do push (.float (-(← popFloat (.typed .uminus))))
  | _ => rejectTag .uminus tag

/-- Reads the next input as a value of a type.  An input that is no such value is
    lost. -/
def read (tag : Tag) : Exec W Unit := do
  let s ← get
  set { s with input := s.input.next.2 }
  match s.input.next.1 with
  | none => throw .inputExhausted
  | some text =>
    match Value.read tag text with
    | .ok v => push v
    | .error _ => throw (.badInput text tag)

/-- The text of the top values of a stack, the deepest first. -/
def lineOf (n : Nat) (stack : List Value) : String :=
  String.join ((stack.take n).reverse.map Value.text)

/-- Prints a number of values on one line.  Nothing is popped if there are too
    few. -/
def print [Writer W] (n : Nat) : Exec W Unit := do
  let s ← get
  if s.stack.length < n then throw .stackUnderflow
  let (result, sink) := Writer.write s.sink (lineOf n s.stack ++ "\n")
  set { s with stack := s.stack.drop n, sink := sink }
  match result with
  | .ok _ => return
  | .error cause => throw (.outputFailed cause)

/-- Goes on at a label. -/
def jump (p : Linked) (l : String) : Exec W Unit :=
  match p.target? l with
  | some i => modify fun s => { s with ip := i }
  | none => throw (.unresolvedLabel l)

/-- Carries out an operation with a type tag. -/
def typed (op : Typed) (tag : Tag) : Exec W Unit :=
  match op with
  | .add => onNumbers .add (fun l r => .ok (.int (l + r))) (fun l r => .float (l + r)) tag
  | .sub => onNumbers .sub (fun l r => .ok (.int (l - r))) (fun l r => .float (l - r)) tag
  | .mul => onNumbers .mul (fun l r => .ok (.int (l * r))) (fun l r => .float (l * r)) tag
  | .div => onNumbers .div divide (fun l r => .float (l / r)) tag
  | .lt => onNumbers .lt (fun l r => .ok (.bool (l < r))) (fun l r => .bool (l < r)) tag
  | .gt => onNumbers .gt (fun l r => .ok (.bool (r < l))) (fun l r => .bool (r < l)) tag
  | .eq => equals tag
  | .uminus => negate tag
  | .read => read tag

/-- Carries out an operation without an operand. -/
def plain (op : Plain) : Exec W Unit :=
  match op with
  | .mod => binary (popInt (.plain .mod)) remainder
  | .concat => binary (popString (.plain .concat)) fun l r => .ok (.string (l ++ r))
  | .and => binary (popBool (.plain .and)) fun l r => .ok (.bool (l && r))
  | .or => binary (popBool (.plain .or)) fun l r => .ok (.bool (l || r))
  | .not => do push (.bool (!(← popBool (.plain .not))))
  | .itof => do push (.float (← popFloat (.plain .itof)))
  | .dup => do
    match (← get).stack with
    | [] => throw .stackUnderflow
    | v :: _ => push v
  | .pop => do let _ ← pop

/-- Carries out an operation with a name. -/
def named (p : Linked) (op : Named) (x : String) : Exec W Unit :=
  match op with
  | .load => do
    match (← get).store.get? x with
    | some v => push v
    | none => throw (.uninitialized x)
  | .save => do
    let v ← pop
    modify fun s => { s with store := s.store.set x v }
  | .jmp => jump p x
  | .fjmp => do
    let b ← popBool (.named .fjmp)
    if !b then jump p x
  | .label => pure ()

/-- Pushes a constant. -/
def constant (tag : Tag) (text : String) : Exec W Unit :=
  match Value.ofLiteral tag text with
  | .ok v => push v
  | .error cause => throw (.malformed (.badConstant tag text cause))

end Exec

/-- Carries out an instruction. -/
def Instr.execute [Writer W] (p : Linked) : Instr → Exec W Unit
  | .push tag text => Exec.constant tag text
  | .print n => Exec.print n
  | .plain op => Exec.plain op
  | .typed op tag => Exec.typed op tag
  | .named op x => Exec.named p op x

end StackLang
