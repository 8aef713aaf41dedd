/-
  The type checker.

  The checker walks a program once and collects every fault; it never stops.  An
  expression with a fault gets the type `error`, and a fault that only follows
  from an operand of that type is not reported.

  * `Expr.check` gives the type of an expression and its faults;
  * `Stmt.check` gives the scopes behind a statement and its faults;
  * `Program.check` starts from an empty global scope.
-/
import StackLang.TypeOf

namespace StackLang

/-! ## Expressions -/

/-- The fault of an operation with one operand, if the rule of the operator
    fails and the operand is not to blame. -/
def UnOp.faults (op : UnOp) (t : Ty) : List Fault :=
  if (op.result t).isError && !t.isError then [.operandType op t] else []

/-- The fault of an operation with two operands, if the rule of the operator
    fails and no operand is to blame. -/
def BinOp.faults (op : BinOp) (l r : Ty) : List Fault :=
  if (op.result l r).isError && !l.isError && !r.isError then [.operandTypes op l r] else []

/-- The fault of two branches without a common type, if neither is to blame. -/
def branchFaults (t e : Ty) : List Fault :=
  if (t.join e).isError && !t.isError && !e.isError then [.branchTypes t e] else []

/-- The fault of a condition that is not a bool, if it has a type. -/
def conditionFaults (c : Construct) (t : Ty) : List Fault :=
  if t = .bool || t.isError then [] else [.conditionType c t]

/-- The type of an expression, and its faults from left to right. -/
def Expr.check (Γ : Scopes) : Expr → Ty × List Fault
  | .lit tag _ => (tag.ty, [])
  | .var x =>
    match Γ.get? x with
    | some t => (t, [])
    | none => (.error, [.notDeclared x])
  | .un op e =>
    let (t, fs) := e.check Γ
    (op.result t, fs ++ op.faults t)
  | .bin op l r =>
    let (tl, fl) := l.check Γ
    let (tr, fr) := r.check Γ
    (op.result tl tr, fl ++ fr ++ op.faults tl tr)
  | .cond c t e =>
    let (tc, fc) := c.check Γ
    let (tt, ft) := t.check Γ
    let (te, fe) := e.check Γ
    (tt.join te, fc ++ conditionFaults .ternary tc ++ ft ++ fe ++ branchFaults tt te)
  | .paren e => e.check Γ

/-- The faults of an expression. -/
def Expr.faults (Γ : Scopes) (e : Expr) : List Fault := (e.check Γ).2

/-- The faults of a condition. -/
def Expr.checkCondition (Γ : Scopes) (c : Construct) (e : Expr) : List Fault :=
  let (t, fs) := e.check Γ
  fs ++ conditionFaults c t

/-! ## Statements -/

/-- Declares a variable; the scopes stay as they are if that fails. -/
def Scopes.checkDeclare (Γ : Scopes) (x : String) (t : Ty) : Scopes × List Fault :=
  match Γ.declare x t with
  | .ok Γ' => (Γ', [])
  | .error f => (Γ, [f])

/-- Declares variables from left to right. -/
def Scopes.checkDeclareAll (Γ : Scopes) (t : Ty) : List String → Scopes × List Fault
  | [] => (Γ, [])
  | x :: xs =>
    let (Γ₁, fs₁) := Γ.checkDeclare x t
    let (Γ₂, fs₂) := Γ₁.checkDeclareAll t xs
    (Γ₂, fs₁ ++ fs₂)

/-- The fault of a variable that is not declared. -/
def Scopes.readFaults (Γ : Scopes) (x : String) : List Fault :=
  if (Γ.get? x).isSome then [] else [.notDeclared x]

/-- The fault of a value that a variable does not take, if the value has a
    type. -/
def storeFaults (x : String) (target value : Ty) : List Fault :=
  if value.isError || target.accepts value then [] else [.notAssignable x target value]

/-- The faults of an assignment: those of the value come first. -/
def Scopes.checkAssign (Γ : Scopes) (x : String) (e : Expr) : List Fault :=
  let (t, fs) := e.check Γ
  match Γ.get? x with
  | none => fs ++ [.notDeclared x]
  | some target => fs ++ storeFaults x target t

/-- Checks the first part of a `for` loop.  The loop variable is declared also
    if its value has a fault. -/
def ForInit.check (Γ : Scopes) : ForInit → Scopes × List Fault
  | .decl t x e =>
    let (te, fs) := e.check Γ
    let (Γ', gs) := Γ.checkDeclare x t
    (Γ', fs ++ storeFaults x t te ++ gs)
  | .assign x e => (Γ, Γ.checkAssign x e)

/-- Checks the first part of a `for` loop, if there is one. -/
def ForInit.checkOption (Γ : Scopes) : Option ForInit → Scopes × List Fault
  | none => (Γ, [])
  | some init => init.check Γ

mutual

/-- The scopes behind a statement, and its faults.  A block and a `for` loop have
    a scope of their own; other bodies declare into the current scope. -/
def Stmt.check (Γ : Scopes) : Stmt → Scopes × List Fault
  | .decl t xs => Γ.checkDeclareAll t xs
  | .assign x e => (Γ, Γ.checkAssign x e)
  | .expr e => (Γ, e.faults Γ)
  | .write es => (Γ, es.flatMap (·.faults Γ))
  | .read xs => (Γ, xs.flatMap Γ.readFaults)
  | .ifElse c t e =>
    let (Γ₁, ft) := t.check Γ
    let (Γ₂, fe) := Stmt.checkOption Γ₁ e
    (Γ₂, c.checkCondition Γ .ifElse ++ ft ++ fe)
  | .whileLoop c body =>
    let (Γ₁, fb) := body.check Γ
    (Γ₁, c.checkCondition Γ .whileLoop ++ fb)
  | .forLoop init c step body =>
    let (Γ₁, fi) := ForInit.checkOption Γ.push init
    let fc := (c.map (·.checkCondition Γ₁ .forLoop)).getD []
    let (Γ₂, fs) := Stmt.checkOption Γ₁ step
    let (Γ₃, fb) := body.check Γ₂
    (Γ₃.pop, fi ++ fc ++ fs ++ fb)
  | .block body =>
    let (Γ₁, fs) := Stmt.checkAll Γ.push body
    (Γ₁.pop, fs)

/-- Checks a statement, if there is one. -/
def Stmt.checkOption (Γ : Scopes) : Option Stmt → Scopes × List Fault
  | none => (Γ, [])
  | some s => s.check Γ

/-- Checks statements in order. -/
def Stmt.checkAll (Γ : Scopes) : List Stmt → Scopes × List Fault
  | [] => (Γ, [])
  | s :: rest =>
    let (Γ₁, fs) := s.check Γ
    let (Γ₂, gs) := Stmt.checkAll Γ₁ rest
    (Γ₂, fs ++ gs)

end

/-- Checks a program in an empty global scope. -/
def Program.check (p : Program) : Scopes × List Fault := Stmt.checkAll .empty p

end StackLang
