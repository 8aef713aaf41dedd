/-
  Code of statements and programs.

  * `Stmt.gen` emits the code of a statement.  Each `if` and each loop takes two
    labels; a block and a `for` loop have a scope of their own;
  * `Program.gen` is the code of a whole program.
-/
import StackLang.Gen.Expr

namespace StackLang

open Gen

/-- Emits code that stores the value of an expression in a variable of the given
    type. -/
def Gen.store (x : String) (target : Ty) (e : Expr) : Gen Unit := do
  let t ← staticType e
  e.gen
  convert t target
  emit (.named .save x)

/-- Emits the code of an assignment. -/
def Gen.assignTo (x : String) (e : Expr) : Gen Unit := do
  let target ← declaredType x
  store x target e

/-- Emits code that reads inputs into variables from left to right. -/
def Gen.readAll : List String → Gen Unit
  | [] => pure ()
  | x :: xs => do
    let t ← declaredType x
    let tag ← tagFor t x
    emit (.typed .read tag)
    emit (.named .save x)
    readAll xs

/-- Emits the code of the first part of a `for` loop.  The loop variable is not
    yet declared in its own value. -/
def ForInit.gen : ForInit → Gen Unit
  | .decl t x e => do
    store x t e
    declare x t
  | .assign x e => assignTo x e

/-- Emits the code of the first part of a `for` loop, if there is one. -/
def ForInit.genOption : Option ForInit → Gen Unit
  | none => pure ()
  | some init => init.gen

/-- Emits a test that leaves the loop, if there is a condition. -/
def Gen.exitUnless (endLabel : String) : Option Expr → Gen Unit
  | none => pure ()
  | some c => do
    c.gen
    emit (.named .fjmp endLabel)

mutual

/-- Emits the code of a statement. -/
def Stmt.gen : Stmt → Gen Unit
  | .decl t xs => declareAll t xs
  | .assign x e => assignTo x e
  | .expr e => do
    e.gen
    emit (.plain .pop)
  | .write es => do
    Expr.genAll es
    emit (.print es.length)
  | .read xs => readAll xs
  | .ifElse c t e => do
    let elseLabel ← newLabel
    let endLabel ← newLabel
    c.gen
    emit (.named .fjmp elseLabel)
    t.gen
    emit (.named .jmp endLabel)
    emit (.named .label elseLabel)
    Stmt.genOption e
    emit (.named .label endLabel)
  | .whileLoop c body => do
    let startLabel ← newLabel
    let endLabel ← newLabel
    emit (.named .label startLabel)
    c.gen
    emit (.named .fjmp endLabel)
    body.gen
    emit (.named .jmp startLabel)
    emit (.named .label endLabel)
  | .forLoop init c step body => inScope do
    ForInit.genOption init
    let startLabel ← newLabel
    let endLabel ← newLabel
    emit (.named .label startLabel)
    exitUnless endLabel c
    body.gen
    Stmt.genOption step
    emit (.named .jmp startLabel)
    emit (.named .label endLabel)
  | .block body => inScope (Stmt.genAll body)

/-- Emits the code of a statement, if there is one. -/
def Stmt.genOption : Option Stmt → Gen Unit
  | none => pure ()
  | some s => s.gen

/-- Emits the code of statements in order. -/
def Stmt.genAll : List Stmt → Gen Unit
  | [] => pure ()
  | s :: rest => do s.gen; Stmt.genAll rest

end

/-- The code of a program, and how many labels it took. -/
def Program.genRun (p : Program) : Emission Unit := Stmt.genAll p {}

/-- The code of a program. -/
def Program.gen (p : Program) : Except Fault (List Instr) :=
  let e := p.genRun
  e.result.map fun _ => e.code

end StackLang
