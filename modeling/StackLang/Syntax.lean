/-
  Abstract syntax: operators, expressions and statements.

  Literals keep the text they were written with; the text of a string literal
  has its quotes.  A program is a list of statements.
-/
import StackLang.Number.Integer
import StackLang.Ty

namespace StackLang

/-! ## Operators -/

/-- Operators with one operand. -/
inductive UnOp where
  | minus
  | not
  deriving DecidableEq, Repr

/-- Operators with two operands. -/
inductive BinOp where
  | add
  | sub
  | mul
  | div
  | mod
  | concat
  | less
  | greater
  | equal
  | notEqual
  | and
  | or
  deriving DecidableEq, Repr

namespace UnOp

/-- The symbol of an operator. -/
def symbol : UnOp → String
  | minus => "-"
  | not => "!"

/-- The type of the result. -/
def result : UnOp → Ty → Ty
  | minus => Ty.negate
  | not => Ty.not

end UnOp

namespace BinOp

/-- The symbol of an operator. -/
def symbol : BinOp → String
  | add => "+"
  | sub => "-"
  | mul => "*"
  | div => "/"
  | mod => "%"
  | concat => "."
  | less => "<"
  | greater => ">"
  | equal => "=="
  | notEqual => "!="
  | and => "&&"
  | or => "||"

/-- The type of the result. -/
def result : BinOp → Ty → Ty → Ty
  | add | sub | mul | div => Ty.widen
  | mod => Ty.remainder
  | concat => Ty.concat
  | less | greater => Ty.relation
  | equal | notEqual => Ty.equality
  | and | or => Ty.logic

end BinOp

/-! ## Expressions -/

/-- Expressions. -/
inductive Expr where
  | lit (tag : Tag) (text : String)
  | var (name : String)
  | un (op : UnOp) (operand : Expr)
  | bin (op : BinOp) (left right : Expr)
  | cond (condition thenExpr elseExpr : Expr)
  | paren (inner : Expr)
  deriving DecidableEq, Repr

namespace Expr

/-- The literal of an integer. -/
def int (n : Int64) : Expr := lit .int (String.ofList (Number.integerText n))

/-- A float literal with the given text. -/
def float (text : String) : Expr := lit .float text

/-- The literal of a truth value. -/
def bool (b : Bool) : Expr := lit .bool (if b then "true" else "false")

/-- The literal of a string: the string between quotes, as it is. -/
def string (s : String) : Expr := lit .string ("\"" ++ s ++ "\"")

end Expr

/-! ## Statements -/

/-- The first part of a `for` loop. -/
inductive ForInit where
  /-- declares the loop variable with its first value -/
  | decl (ty : Ty) (name : String) (value : Expr)
  /-- assigns to a variable that is declared already -/
  | assign (name : String) (value : Expr)
  deriving DecidableEq, Repr

/-- Statements. -/
inductive Stmt where
  | decl (ty : Ty) (names : List String)
  | assign (name : String) (value : Expr)
  | expr (e : Expr)
  | write (es : List Expr)
  | read (names : List String)
  | ifElse (condition : Expr) (thenBody : Stmt) (elseBody : Option Stmt)
  | whileLoop (condition : Expr) (body : Stmt)
  | forLoop (init : Option ForInit) (condition : Option Expr) (step : Option Stmt) (body : Stmt)
  | block (body : List Stmt)
  deriving Repr

/-- A program is a list of statements. -/
abbrev Program := List Stmt

end StackLang
