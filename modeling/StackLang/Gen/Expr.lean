/-
  Code of expressions.

  `Expr.gen` emits code that pushes the value of an expression.  Both operands of
  an operator are computed, the left one first.  An int that meets a float is
  converted by an `itof` right behind its code.
-/
import StackLang.Gen.Basic

namespace StackLang

open Gen

/-- How an operator with two operands is executed. -/
inductive BinForm where
  /-- on the operands as they are -/
  | plain (op : Plain)
  /-- on two numbers of one type -/
  | numeric (op : Typed)
  /-- by comparing two values of one type -/
  | equality (negated : Bool)
  deriving DecidableEq, Repr

/-- How an operator is executed. -/
def BinOp.form : BinOp → BinForm
  | add => .numeric .add
  | sub => .numeric .sub
  | mul => .numeric .mul
  | div => .numeric .div
  | mod => .plain .mod
  | concat => .plain .concat
  | less => .numeric .lt
  | greater => .numeric .gt
  | equal => .equality false
  | notEqual => .equality true
  | and => .plain .and
  | or => .plain .or

/-- How the fault of an operator without a tag names its operands. -/
def BinOp.operandsOf (op : BinOp) : String := s!"operands of '{op.symbol}'"

/-- The type at which two values are compared: strings win over floats, and
    floats over ints. -/
def Ty.equalityType (l r : Ty) : Ty :=
  if l = .string ∨ r = .string then .string
  else if l = .float ∨ r = .float then .float
  else if l = .bool ∧ r = .bool then .bool
  else if l = .int ∧ r = .int then .int
  else .error

/-- Emits code that pushes the value of an expression. -/
def Expr.gen : Expr → Gen Unit
  | .lit tag text => emit (.push tag text)
  | .var x => emit (.named .load x)
  | .un .minus e => do
    let t ← staticType e
    e.gen
    emit (.typed .uminus (if t = .int then .int else .float))
  | .un .not e => do
    e.gen
    emit (.plain .not)
  | .bin op l r => do
    let tl ← staticType l
    let tr ← staticType r
    match op.form with
    | .plain p => do
      l.gen
      r.gen
      emit (.plain p)
    | .numeric p => do
      l.gen
      convert tl tr
      r.gen
      convert tr tl
      let tag ← tagFor (tl.widen tr) op.operandsOf
      emit (.typed p tag)
    | .equality negated => do
      l.gen
      convert tl tr
      r.gen
      convert tr tl
      let tag ← tagFor (tl.equalityType tr) op.operandsOf
      emit (.typed .eq tag)
      if negated then emit (.plain .not)
  | .cond c t e => do
    let tt ← staticType t
    let te ← staticType e
    let elseLabel ← newLabel
    let endLabel ← newLabel
    c.gen
    emit (.named .fjmp elseLabel)
    t.gen
    convert tt (tt.join te)
    emit (.named .jmp endLabel)
    emit (.named .label elseLabel)
    e.gen
    convert te (tt.join te)
    emit (.named .label endLabel)
  | .paren e => e.gen

/-- Emits code that pushes the values of expressions from left to right. -/
def Expr.genAll : List Expr → Gen Unit
  | [] => pure ()
  | e :: es => do e.gen; Expr.genAll es

end StackLang
