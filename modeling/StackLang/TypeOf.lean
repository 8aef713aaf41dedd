/-
  The static type of an expression.

  `Expr.typeOf` looks at the declarations in scope and reports nothing.  An
  undeclared variable has the type `error`, and so has every operation on it.
  The type of a ternary does not depend on that of its condition.
-/
import StackLang.Scope

namespace StackLang

/-- The static type of an expression. -/
def Expr.typeOf (Γ : Scopes) : Expr → Ty
  | .lit tag _ => tag.ty
  | .var x => (Γ.get? x).getD .error
  | .un op e => op.result (e.typeOf Γ)
  | .bin op l r => op.result (l.typeOf Γ) (r.typeOf Γ)
  | .cond _ t e => (t.typeOf Γ).join (e.typeOf Γ)
  | .paren e => e.typeOf Γ

end StackLang
