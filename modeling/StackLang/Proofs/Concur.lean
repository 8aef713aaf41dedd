/-
  The three readings of an expression: by the checker, by its static type and by the
  generator.

  * `Expr.parts e` are the expressions that `e` consists of, itself included;
  * `Expr.faults_eq_nil_iff_parts`: an expression has no faults exactly if all its parts
    have a type and the conditions in it are bools.  The type of a ternary does not show
    that of its condition, so the conditions have to be asked for;
  * `Expr.check_coincides`: the checker finds the static type and leaves the scopes alone,
    and an expression without faults has code.
-/
import StackLang.Proofs.Typing

namespace StackLang

namespace Expr

variable {Γ : Scopes}

/-- The expression and all that it consists of. -/
def parts : Expr → List Expr
  | lit tag text => [lit tag text]
  | var x => [var x]
  | un op e => un op e :: e.parts
  | bin op l r => bin op l r :: (l.parts ++ r.parts)
  | cond c t e => cond c t e :: (c.parts ++ t.parts ++ e.parts)
  | paren e => paren e :: e.parts

theorem mem_parts_self (e : Expr) : e ∈ e.parts := by
  cases e <;> simp [parts]

theorem faults_parts {e : Expr} (h : e.faults Γ = []) : ∀ d ∈ e.parts, d.faults Γ = [] := by
  induction e with
  | lit | var => simpa [parts] using h
  | un op e ih =>
    rw [parts, List.forall_mem_cons]
    exact ⟨h, ih (faults_un.1 h).1⟩
  | bin op l r ihl ihr =>
    obtain ⟨hl, hr, -⟩ := faults_bin.1 h
    rw [parts, List.forall_mem_cons, List.forall_mem_append]
    exact ⟨h, ihl hl, ihr hr⟩
  | cond c t e ihc iht ihe =>
    obtain ⟨hc, -, ht, he, -⟩ := faults_cond.1 h
    rw [parts, List.forall_mem_cons, List.forall_mem_append, List.forall_mem_append]
    exact ⟨h, ⟨ihc hc, iht ht⟩, ihe he⟩
  | paren e ih =>
    rw [parts, List.forall_mem_cons]
    exact ⟨h, ih h⟩

/-- The expression has a type, and its condition, if it is a ternary, is a bool. -/
def Regular (Γ : Scopes) (e : Expr) : Prop :=
  e.typeOf Γ ≠ .error ∧ ∀ c t u, e = cond c t u → c.typeOf Γ = .bool

theorem regular_of_faults (hΓ : Γ.Proper) {e : Expr} (h : e.faults Γ = []) : e.Regular Γ := by
  obtain ⟨tag, ht⟩ := exists_tag hΓ h
  refine ⟨ht ▸ tag.ty_ne_error, ?_⟩
  rintro c t u rfl
  obtain ⟨hc, hcond, -⟩ := faults_cond.1 h
  obtain ⟨tc, htc⟩ := exists_tag hΓ hc
  rw [htc, conditionFaults_eq_nil] at hcond
  rw [htc, hcond]
  rfl

theorem faults_of_regular {e : Expr} (h : ∀ d ∈ e.parts, d.Regular Γ) : e.faults Γ = [] := by
  -- an operation that has a type reports nothing itself
  induction e with
  | lit => rfl
  | var x =>
    have hx : (Γ.get? x).getD .error ≠ .error := (h _ (mem_parts_self _)).1
    refine faults_var.2 (Option.ne_none_iff_exists'.1 fun hnone => hx ?_)
    rw [hnone, Option.getD_none]
  | un op e ih =>
    rw [parts, List.forall_mem_cons] at h
    have hop : op.result (e.typeOf Γ) ≠ .error := h.1.1
    exact faults_un.2 ⟨ih h.2, by simp [UnOp.faults, hop]⟩
  | bin op l r ihl ihr =>
    rw [parts, List.forall_mem_cons, List.forall_mem_append] at h
    have hop : op.result (l.typeOf Γ) (r.typeOf Γ) ≠ .error := h.1.1
    exact faults_bin.2 ⟨ihl h.2.1, ihr h.2.2, by simp [BinOp.faults, hop]⟩
  | cond c t e ihc iht ihe =>
    rw [parts, List.forall_mem_cons, List.forall_mem_append, List.forall_mem_append] at h
    obtain ⟨⟨htype, hbool⟩, ⟨hc, ht⟩, he⟩ := h
    have hjoin : (t.typeOf Γ).join (e.typeOf Γ) ≠ .error := htype
    refine faults_cond.2 ⟨ihc hc, ?_, iht ht, ihe he, by simp [branchFaults, hjoin]⟩
    rw [hbool c t e rfl]
    rfl
  | paren e ih =>
    rw [parts, List.forall_mem_cons] at h
    exact ih h.2

/-- **An expression has no faults exactly if all its parts have types and its conditions
    are bools.** -/
theorem faults_eq_nil_iff_parts (hΓ : Γ.Proper) {e : Expr} :
    e.faults Γ = [] ↔ ∀ d ∈ e.parts, d.Regular Γ :=
  ⟨fun h d hd => regular_of_faults hΓ (faults_parts h d hd), faults_of_regular⟩

theorem gen_of_faults (hΓ : Γ.Proper) {e : Expr} (h : e.faults Γ = []) (n : Nat) :
    ∃ code n', e.gen ⟨Γ, n⟩ = ⟨code, ⟨Γ, n'⟩, .ok ()⟩ := by
  obtain ⟨code, n', he⟩ := exists_emits (resolves_of_faults hΓ h) n
  exact ⟨code, n', gen_of_emits he⟩

/-- **Checker, static type and generator agree.**  The checker finds the static type, and
    by `Stmt.check_expr` leaves the scopes as they are.  In scopes without the type
    `error`, it has nothing to report exactly if all parts have types and the conditions
    are bools; and then there is code for the expression. -/
theorem check_coincides (Γ : Scopes) (e : Expr) :
    (e.check Γ).1 = e.typeOf Γ ∧ (Stmt.expr e).check Γ = (Γ, (e.check Γ).2) ∧
      (Γ.Proper →
        ((e.check Γ).2 = [] ↔ ∀ d ∈ e.parts,
          d.typeOf Γ ≠ .error ∧ ∀ c t u, d = cond c t u → c.typeOf Γ = .bool) ∧
        ((e.check Γ).2 = [] →
          ∀ n, ∃ code n', e.gen ⟨Γ, n⟩ = ⟨code, ⟨Γ, n'⟩, .ok ()⟩)) := by
  refine ⟨e.check_fst, Stmt.check_expr Γ e, fun hΓ => ⟨?_, fun h => ?_⟩⟩
  · exact faults_eq_nil_iff_parts hΓ
  · exact gen_of_faults hΓ h

/-- A ternary whose branches are an int and a float, in a scope inside another. -/
theorem check_coincides_ternary :
    let Γ : Scopes := ((Scopes.empty.checkDeclare "n" .int).1.push.checkDeclare "x" .float).1
    let e : Expr := cond (bin .less (var "n") (var "x")) (var "n")
      (bin .add (var "x") (lit .int "1"))
    Γ.Proper ∧ e.check Γ = (.float, []) ∧ (∀ d ∈ e.parts, d.typeOf Γ ≠ .error) ∧
      ∃ code, e.gen ⟨Γ, 0⟩ = ⟨code, ⟨Γ, 2⟩, .ok ()⟩ := by
  intro Γ e
  have hn : (Scopes.empty.checkDeclare "n" .int).1.Proper := Scopes.proper_empty.checkDeclare nofun
  have hΓ : Γ.Proper := Scopes.Proper.checkDeclare (Γ := Scopes.push _) hn nofun
  have hcheck : e.check Γ = (.float, []) := by rfl
  obtain ⟨-, -, hagree⟩ := check_coincides Γ e
  obtain ⟨hparts, hgen⟩ := hagree hΓ
  obtain ⟨code, n', hcode⟩ := hgen (by rw [hcheck]) 0
  obtain rfl : 2 = n' := congrArg (·.state.labels) hcode
  exact ⟨hΓ, hcheck, fun d hd => (hparts.1 (by rw [hcheck]) d hd).1, code, hcode⟩

/-- A ternary with a condition that is no bool has a type and a fault. -/
example : (cond (lit .int "1") (lit .int "2") (lit .int "3")).check .empty =
    (.int, [.conditionType .ternary .int]) := by decide

end Expr

end StackLang
