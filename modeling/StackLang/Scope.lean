/-
  Scopes: which variables are declared where.

  * `Scope` holds the declarations of one block, at most one for each name;
  * `Scopes` is the stack of open scopes.  There is always a global scope, so the
    stack is a current scope and the scopes around it, innermost first.
-/
import StackLang.Fault

namespace StackLang

/-- The declarations of one block. -/
structure Scope where
  bindings : List (String × Ty) := []
  deriving DecidableEq, Repr

namespace Scope

/-- The scope without declarations. -/
def empty : Scope := {}

/-- The type of a variable, if the scope declares it. -/
def get? (s : Scope) (x : String) : Option Ty := s.bindings.lookup x

/-- Declares a variable that is new in the scope. -/
def declare (s : Scope) (x : String) (t : Ty) : Except Fault Scope :=
  if (s.get? x).isSome then .error (.alreadyDeclared x) else .ok ⟨(x, t) :: s.bindings⟩

@[simp] theorem get?_empty (x : String) : empty.get? x = none := rfl

/-- A declaration succeeds exactly if the name is new in the scope. -/
theorem declare_eq_ok {s s' : Scope} {x : String} {t : Ty} :
    s.declare x t = .ok s' ↔ s.get? x = none ∧ s' = ⟨(x, t) :: s.bindings⟩ := by
  unfold declare
  cases h : s.get? x with
  | none => simp [eq_comm]
  | some _ => simp

/-- Behind a declaration the name has its type, and the other names are as
    before. -/
theorem get?_declare {s s' : Scope} {x : String} {t : Ty} (h : s.declare x t = .ok s')
    (y : String) : s'.get? y = if y = x then some t else s.get? y := by
  obtain ⟨-, rfl⟩ := declare_eq_ok.1 h
  by_cases hy : y = x
  · simp [get?, hy]
  · have : (y == x) = false := by simpa using hy
    simp [get?, List.lookup_cons, this, hy]

/-- The declarations in the order of their names. -/
def toSorted (s : Scope) : List (String × Ty) :=
  s.bindings.mergeSort fun a b => decide (a.1 ≤ b.1)

end Scope

/-- The open scopes: the current one and those around it, innermost first. -/
structure Scopes where
  current : Scope := {}
  outer : List Scope := []
  deriving DecidableEq, Repr

namespace Scopes

/-- Only the global scope, without declarations. -/
def empty : Scopes := {}

/-- The number of open scopes. -/
def depth (Γ : Scopes) : Nat := Γ.outer.length + 1

/-- Opens a scope. -/
def push (Γ : Scopes) : Scopes := ⟨{}, Γ.current :: Γ.outer⟩

/-- Closes the current scope, unless it is the global one. -/
def pop? (Γ : Scopes) : Option Scopes :=
  match Γ.outer with
  | [] => none
  | s :: rest => some ⟨s, rest⟩

/-- Closes the current scope; the global scope stays open. -/
def pop (Γ : Scopes) : Scopes := Γ.pop?.getD Γ

/-- Declares a variable in the current scope. -/
def declare (Γ : Scopes) (x : String) (t : Ty) : Except Fault Scopes :=
  (Γ.current.declare x t).map fun s => { Γ with current := s }

/-- The type of a variable in the innermost scope that declares it. -/
def get? (Γ : Scopes) (x : String) : Option Ty :=
  (Γ.current :: Γ.outer).findSome? (·.get? x)

/-- The current scope itself declares the variable. -/
def declaresHere (Γ : Scopes) (x : String) : Bool := (Γ.current.get? x).isSome

@[simp] theorem pop?_push (Γ : Scopes) : Γ.push.pop? = some Γ := rfl

@[simp] theorem pop_push (Γ : Scopes) : Γ.push.pop = Γ := rfl

@[simp] theorem depth_push (Γ : Scopes) : Γ.push.depth = Γ.depth + 1 := rfl

@[simp] theorem get?_push (Γ : Scopes) (x : String) : Γ.push.get? x = Γ.get? x := rfl

theorem pop?_eq_none {Γ : Scopes} : Γ.pop? = none ↔ Γ.depth = 1 := by
  rcases Γ with ⟨s, _ | ⟨t, rest⟩⟩ <;> simp [pop?, depth]

end Scopes

end StackLang
