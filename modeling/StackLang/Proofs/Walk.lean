/-
  The meaning of programs: a walk over their trees.

  * `Expr.eval Γ ρ e` is the value of an expression in the scopes `Γ` if the
    variables have the values `ρ`.  Both operands of an operator are evaluated, the
    left one first, and one branch of a ternary.  An int is converted where the
    static types are int and float;
  * `Stmt.walk n Γ s` carries out a statement on a `World`: the variables, the inputs
    that are left and the writer that lines are printed to.  Every loop makes at
    most `n` rounds, and the walk is `unfinished` if a loop needs more;
  * `Stmt.after Γ s` are the scopes behind a statement.  They follow the tree and
    not the walk.
-/
import StackLang.Build

namespace StackLang

/-! ## Operands -/

namespace Value

/-- The value as an operand of an operation. -/
def operand {α : Type} (op : Opcode) (expected : Operand) (view : Value → Option α) (v : Value) :
    Except Fault α :=
  match view v with
  | some a => .ok a
  | none => .error (.operandMismatch op expected v.tag)

/-- The value as an int operand. -/
def asInt (op : Opcode) : Value → Except Fault Int64 := operand op .int toInt?

/-- The value as a float operand. -/
def asFloat (op : Opcode) : Value → Except Fault Float := operand op .numeric toFloat?

/-- The value as a bool operand. -/
def asBool (op : Opcode) : Value → Except Fault Bool := operand op .bool toBool?

/-- The value as a string operand. -/
def asString (op : Opcode) : Value → Except Fault String := operand op .string toString?

/-- The value where a value of the type `wanted` is needed and one of the type
    `given` is expected. -/
def convert (given wanted : Ty) (v : Value) : Except Fault Value :=
  if given = .int ∧ wanted = .float then (v.asFloat (.plain .itof)).map .float else .ok v

end Value

/-- An operation on two operands.  The right one is looked at first. -/
def onOperands {α : Type} (operand : Value → Except Fault α) (f : α → α → Except Fault Value)
    (l r : Value) : Except Fault Value := do
  let b ← operand r
  let a ← operand l
  f a b

/-! ## Operators -/

/-- An operation on numbers: on ints at the type `int`, else on floats. -/
def onNumbers (op : Typed) (onInts : Int64 → Int64 → Except Fault Value)
    (onFloats : Float → Float → Value) (t : Ty) : Value → Value → Except Fault Value :=
  if t = .int then onOperands (Value.asInt (.typed op)) onInts
  else onOperands (Value.asFloat (.typed op)) fun a b => .ok (onFloats a b)

/-- The comparison of two values at a type. -/
def equal (t : Ty) : Value → Value → Except Fault Value :=
  match t with
  | .string => onOperands (Value.asString (.typed .eq)) fun a b => .ok (.bool (a == b))
  | .bool => onOperands (Value.asBool (.typed .eq)) fun a b => .ok (.bool (a == b))
  | .int => onOperands (Value.asInt (.typed .eq)) fun a b => .ok (.bool (a == b))
  | _ => onOperands (Value.asFloat (.typed .eq)) fun a b => .ok (.bool (a == b))

/-- The negation of a truth value. -/
def negation (v : Value) : Except Fault Value :=
  (v.asBool (.plain .not)).map fun b => .bool (!b)

/-- The result of an operator on a value whose static type is `t`. -/
def UnOp.apply (op : UnOp) (t : Ty) (v : Value) : Except Fault Value :=
  match op with
  | .minus =>
    if t = .int then (v.asInt (.typed .uminus)).map fun a => .int (-a)
    else (v.asFloat (.typed .uminus)).map fun a => .float (-a)
  | .not => negation v

/-- The operator takes an int together with a float. -/
def BinOp.mixes : BinOp → Bool
  | add | sub | mul | div | less | greater | equal | notEqual => true
  | mod | concat | and | or => false

/-- The result of an operator on two values whose static types are `tl` and
    `tr`. -/
def BinOp.apply (op : BinOp) (tl tr : Ty) (l r : Value) : Except Fault Value :=
  match op with
  | .add => onNumbers .add (fun a b => .ok (.int (a + b))) (fun a b => .float (a + b))
      (tl.widen tr) l r
  | .sub => onNumbers .sub (fun a b => .ok (.int (a - b))) (fun a b => .float (a - b))
      (tl.widen tr) l r
  | .mul => onNumbers .mul (fun a b => .ok (.int (a * b))) (fun a b => .float (a * b))
      (tl.widen tr) l r
  | .div => onNumbers .div Exec.divide (fun a b => .float (a / b)) (tl.widen tr) l r
  | .mod => onOperands (Value.asInt (.plain .mod)) Exec.remainder l r
  | .concat => onOperands (Value.asString (.plain .concat)) (fun a b => .ok (.string (a ++ b))) l r
  | .less => onNumbers .lt (fun a b => .ok (.bool (a < b))) (fun a b => .bool (a < b))
      (tl.widen tr) l r
  | .greater => onNumbers .gt (fun a b => .ok (.bool (b < a))) (fun a b => .bool (b < a))
      (tl.widen tr) l r
  | .equal => StackLang.equal (tl.equalityType tr) l r
  | .notEqual => StackLang.equal (tl.equalityType tr) l r >>= negation
  | .and => onOperands (Value.asBool (.plain .and)) (fun a b => .ok (.bool (a && b))) l r
  | .or => onOperands (Value.asBool (.plain .or)) (fun a b => .ok (.bool (a || b))) l r

/-! ## Expressions -/

/-- The value of an expression. -/
def Expr.eval (Γ : Scopes) (ρ : String → Option Value) : Expr → Except Fault Value
  | .lit tag text =>
    (Value.ofLiteral tag text).mapError fun cause => .malformed (.badConstant tag text cause)
  | .var x =>
    match ρ x with
    | some v => .ok v
    | none => .error (.uninitialized x)
  | .un op e => do op.apply (e.typeOf Γ) (← e.eval Γ ρ)
  | .bin op l r => do
    let a ← l.eval Γ ρ
    let a ← if op.mixes then a.convert (l.typeOf Γ) (r.typeOf Γ) else pure a
    let b ← r.eval Γ ρ
    let b ← if op.mixes then b.convert (r.typeOf Γ) (l.typeOf Γ) else pure b
    op.apply (l.typeOf Γ) (r.typeOf Γ) a b
  | .cond c t e => do
    let wanted := (t.typeOf Γ).join (e.typeOf Γ)
    let test ← c.eval Γ ρ
    if ← test.asBool (.named .fjmp) then
      let v ← t.eval Γ ρ
      v.convert (t.typeOf Γ) wanted
    else
      let v ← e.eval Γ ρ
      v.convert (e.typeOf Γ) wanted
  | .paren e => e.eval Γ ρ

/-- The values of expressions from left to right. -/
def Expr.evalAll (Γ : Scopes) (ρ : String → Option Value) : List Expr → Except Fault (List Value)
  | [] => .ok []
  | e :: es => do
    let v ← e.eval Γ ρ
    let vs ← Expr.evalAll Γ ρ es
    return v :: vs

/-! ## Scopes behind statements -/

/-- The scopes behind the first part of a `for` loop. -/
def ForInit.after (Γ : Scopes) : Option ForInit → Scopes
  | some (.decl t x _) => (Γ.checkDeclare x t).1
  | _ => Γ

mutual

/-- The scopes behind a statement.  A block and a `for` loop keep their
    declarations to themselves. -/
def Stmt.after (Γ : Scopes) : Stmt → Scopes
  | .decl t xs => (Γ.checkDeclareAll t xs).1
  | .ifElse _ t e => Stmt.afterOption (t.after Γ) e
  | .whileLoop _ b => b.after Γ
  | .assign _ _ | .expr _ | .write _ | .read _ | .forLoop _ _ _ _ | .block _ => Γ

/-- The scopes behind a statement, if there is one. -/
def Stmt.afterOption (Γ : Scopes) : Option Stmt → Scopes
  | none => Γ
  | some s => s.after Γ

end

/-! ## Statements -/

/-- What statements act on. -/
structure World (W : Type) where
  /-- the values of the variables that were stored -/
  vars : String → Option Value := fun _ => none
  /-- the inputs that are left -/
  inputs : List String := []
  /-- what lines are printed to -/
  out : W

/-- The world in which a variable has a new value. -/
def World.set {W : Type} (w : World W) (x : String) (v : Value) : World W :=
  { w with vars := fun y => if y = x then some v else w.vars y }

/-- Why a walk stops before the end. -/
inductive Stop where
  | fault (f : Fault)
  /-- a loop needs more rounds -/
  | unfinished
  deriving DecidableEq, Repr

/-- Actions on the world that may stop.  What was done before stays done. -/
abbrev Walk (W : Type) := EStateM Stop (World W)

variable {W : Type}

namespace Walk

/-- Goes on with a result, or stops with a fault. -/
def lift {α : Type} : Except Fault α → Walk W α
  | .ok a => pure a
  | .error f => throw (.fault f)

/-- The value of an expression. -/
def eval (Γ : Scopes) (e : Expr) : Walk W Value := do lift (e.eval Γ (← get).vars)

/-- The values of expressions from left to right. -/
def evalAll (Γ : Scopes) (es : List Expr) : Walk W (List Value) := do
  lift (Expr.evalAll Γ (← get).vars es)

/-- Stores the value of a variable. -/
def assign (x : String) (v : Value) : Walk W Unit := modify (·.set x v)

/-- Stores the value of an expression in a variable of the type `t`. -/
def store (Γ : Scopes) (x : String) (t : Ty) (e : Expr) : Walk W Unit := do
  let v ← eval Γ e
  let v ← lift (v.convert (e.typeOf Γ) t)
  assign x v

/-- Stores the value of an expression in a declared variable. -/
def assignTo (Γ : Scopes) (x : String) (e : Expr) : Walk W Unit :=
  match Γ.get? x with
  | some t => store Γ x t e
  | none => throw (.fault (.notDeclared x))

/-- Goes on with a writer, or stops if that failed. -/
def setOut : Except String Unit × W → Walk W Unit
  | (.ok _, k) => modify fun w => { w with out := k }
  | (.error cause, k) => do
    modify fun w => { w with out := k }
    throw (.fault (.outputFailed cause))

/-- Prints values on one line. -/
def print [Writer W] (vs : List Value) : Walk W Unit := do
  setOut (Writer.write (← get).out (String.join (vs.map Value.text) ++ "\n"))

/-- Completes the output. -/
def finish [Writer W] : Walk W Unit := do setOut (Writer.flush (← get).out)

/-- Takes the next input as a value of a type. -/
def read (tag : Tag) : Walk W Value := do
  let w ← get
  match w.inputs with
  | [] => throw (.fault .inputExhausted)
  | s :: rest =>
    set { w with inputs := rest }
    match Value.read tag s with
    | .ok v => pure v
    | .error _ => throw (.fault (.badInput s tag))

/-- Reads inputs into variables from left to right. -/
def readAll (Γ : Scopes) : List String → Walk W Unit
  | [] => pure ()
  | x :: xs => do
    match (Γ.get? x).bind Ty.tag? with
    | some tag => assign x (← read tag)
    | none => throw (.fault (.notDeclared x))
    readAll Γ xs

/-- The truth value of a condition; a missing one is true. -/
def test (Γ : Scopes) : Option Expr → Walk W Bool
  | none => pure true
  | some c => do
    let v ← eval Γ c
    lift (v.asBool (.named .fjmp))

/-- Carries out `body` as long as `test` is true, at most the given number of
    times. -/
def loop (test : Walk W Bool) (body : Walk W Unit) : Nat → Walk W Unit
  | 0 => throw .unfinished
  | n + 1 => do
    if ← test then
      body
      loop test body n

end Walk

open Walk

/-- Carries out the first part of a `for` loop, if there is one. -/
def ForInit.walk (Γ : Scopes) : Option ForInit → Walk W Unit
  | none => pure ()
  | some (.decl t x e) => store Γ x t e
  | some (.assign x e) => assignTo Γ x e

variable [Writer W]

mutual

/-- Carries out a statement, with at most `n` rounds of each loop. -/
def Stmt.walk (n : Nat) (Γ : Scopes) : Stmt → Walk W Unit
  | .decl _ _ => pure ()
  | .assign x e => assignTo Γ x e
  | .expr e => do let _ ← eval Γ e
  | .write es => do print (← evalAll Γ es)
  | .read xs => readAll Γ xs
  | .ifElse c t e => do
    if ← test Γ (some c) then t.walk n Γ else Stmt.walkOption n (t.after Γ) e
  | .whileLoop c b => loop (test Γ (some c)) (b.walk n Γ) n
  | .forLoop init c step b => do
    let Γ₁ := ForInit.after Γ.push init
    ForInit.walk Γ.push init
    loop (test Γ₁ c) (do b.walk n Γ₁; Stmt.walkOption n (b.after Γ₁) step) n
  | .block ss => Stmt.walkAll n Γ.push ss

/-- Carries out a statement, if there is one. -/
def Stmt.walkOption (n : Nat) (Γ : Scopes) : Option Stmt → Walk W Unit
  | none => pure ()
  | some s => s.walk n Γ

/-- Carries out statements in order. -/
def Stmt.walkAll (n : Nat) (Γ : Scopes) : List Stmt → Walk W Unit
  | [] => pure ()
  | s :: ss => do
    s.walk n Γ
    Stmt.walkAll n (s.after Γ) ss

end

/-- Carries out a program, with at most `n` rounds of each loop, and completes the
    output. -/
def Program.walk (n : Nat) (p : Program) : Walk W Unit := do
  Stmt.walkAll n .empty p
  finish

end StackLang
