/-
  The root causes of the faults of an expression.

  * a `Site` is a place in an expression where the checker looks at types, and
    `Expr.sites` lists the sites in the order of evaluation;
  * `Site.cause? Γ s` is what is wrong at a site by itself, by the static types of the
    expressions there.  A part without a type is not to blame for what is around it;
  * `Expr.faults_root_causes`: the checker reports exactly these causes, each of them
    once and in this order.
-/
import StackLang.Proofs.Concur

namespace StackLang

/-- A place in an expression where the checker looks at types. -/
inductive Site where
  | var (x : String)
  | un (op : UnOp) (e : Expr)
  | bin (op : BinOp) (l r : Expr)
  /-- the condition of a ternary -/
  | condition (c : Expr)
  /-- the two branches of a ternary -/
  | branches (t e : Expr)
  deriving DecidableEq

/-- The sites of an expression in the order of evaluation.  Operands come before their
    operator, and the condition of a ternary before its branches. -/
def Expr.sites : Expr → List Site
  | .lit _ _ => []
  | .var x => [.var x]
  | .un op e => e.sites ++ [.un op e]
  | .bin op l r => l.sites ++ r.sites ++ [.bin op l r]
  | .cond c t e => c.sites ++ [.condition c] ++ t.sites ++ e.sites ++ [.branches t e]
  | .paren e => e.sites

/-- The sites of an expression itself, without those of its parts. -/
def Expr.ownSites : Expr → List Site
  | .lit _ _ | .paren _ => []
  | .var x => [.var x]
  | .un op e => [.un op e]
  | .bin op l r => [.bin op l r]
  | .cond c t e => [.condition c, .branches t e]

/-- The fault at a site whose parts all have types, if its rule does not apply to them. -/
def Site.cause? (Γ : Scopes) : Site → Option Fault
  | .var x => if Γ.get? x = none then some (.notDeclared x) else none
  | .un op e =>
    if e.typeOf Γ ≠ .error ∧ op.result (e.typeOf Γ) = .error then
      some (.operandType op (e.typeOf Γ))
    else none
  | .bin op l r =>
    if l.typeOf Γ ≠ .error ∧ r.typeOf Γ ≠ .error ∧ op.result (l.typeOf Γ) (r.typeOf Γ) = .error then
      some (.operandTypes op (l.typeOf Γ) (r.typeOf Γ))
    else none
  | .condition c =>
    if c.typeOf Γ ≠ .error ∧ c.typeOf Γ ≠ .bool then some (.conditionType .ternary (c.typeOf Γ))
    else none
  | .branches t e =>
    if t.typeOf Γ ≠ .error ∧ e.typeOf Γ ≠ .error ∧ (t.typeOf Γ).join (e.typeOf Γ) = .error then
      some (.branchTypes (t.typeOf Γ) (e.typeOf Γ))
    else none

variable {Γ : Scopes}

/-! ## What the checker reports at a site -/

theorem UnOp.faults_eq_cause {op : UnOp} {e : Expr} :
    op.faults (e.typeOf Γ) = (Site.cause? Γ (.un op e)).toList := by
  by_cases he : e.typeOf Γ = .error
  · simp [UnOp.faults, Site.cause?, he]
  · by_cases hr : op.result (e.typeOf Γ) = .error <;> simp [UnOp.faults, Site.cause?, he, hr]

theorem BinOp.faults_eq_cause {op : BinOp} {l r : Expr} :
    op.faults (l.typeOf Γ) (r.typeOf Γ) = (Site.cause? Γ (.bin op l r)).toList := by
  by_cases hl : l.typeOf Γ = .error
  · simp [BinOp.faults, Site.cause?, hl]
  by_cases hr : r.typeOf Γ = .error
  · simp [BinOp.faults, Site.cause?, hr]
  by_cases hop : op.result (l.typeOf Γ) (r.typeOf Γ) = .error <;>
    simp [BinOp.faults, Site.cause?, hl, hr, hop]

theorem conditionFaults_eq_cause {c : Expr} :
    conditionFaults .ternary (c.typeOf Γ) = (Site.cause? Γ (.condition c)).toList := by
  by_cases hc : c.typeOf Γ = .error
  · simp [conditionFaults, Site.cause?, hc]
  · by_cases hb : c.typeOf Γ = .bool <;> simp [conditionFaults, Site.cause?, hc, hb]

theorem branchFaults_eq_cause {t e : Expr} :
    branchFaults (t.typeOf Γ) (e.typeOf Γ) = (Site.cause? Γ (.branches t e)).toList := by
  by_cases ht : t.typeOf Γ = .error
  · simp [branchFaults, Site.cause?, ht]
  by_cases he : e.typeOf Γ = .error
  · simp [branchFaults, Site.cause?, he]
  by_cases hj : (t.typeOf Γ).join (e.typeOf Γ) = .error <;>
    simp [branchFaults, Site.cause?, ht, he, hj]

/-! ## Expressions -/

namespace Expr

/-- The faults of an expression are the causes at its sites. -/
theorem faults_eq_causes (e : Expr) : e.faults Γ = e.sites.filterMap (Site.cause? Γ) := by
  -- a site at the end of a list of sites
  have hlast (ss : List Site) (s : Site) : (ss ++ [s]).filterMap (Site.cause? Γ) =
      ss.filterMap (Site.cause? Γ) ++ (s.cause? Γ).toList := by
    rw [List.filterMap_append]
    cases h : s.cause? Γ <;> simp [h]
  induction e with
  | lit => rfl
  | var x =>
    simp only [faults, check, sites]
    cases hx : Γ.get? x <;> simp [Site.cause?, hx]
  | un op e ih =>
    simp only [faults] at ih
    simp only [faults, check, check_fst, sites, hlast, ih, UnOp.faults_eq_cause]
  | bin op l r ihl ihr =>
    simp only [faults] at ihl ihr
    simp only [faults, check, check_fst, sites, hlast, List.filterMap_append, ihl, ihr,
      BinOp.faults_eq_cause]
  | cond c t e ihc iht ihe =>
    simp only [faults] at ihc iht ihe
    simp only [faults, check, check_fst, sites, hlast, List.filterMap_append, ihc, iht, ihe,
      conditionFaults_eq_cause, branchFaults_eq_cause]
  | paren e ih => exact ih

/-- Every part of an expression is looked at once, and a ternary once for its condition
    and once for its branches. -/
theorem sites_perm (e : Expr) : e.sites.Perm (e.parts.flatMap ownSites) := by
  induction e with
  | lit | var => exact .refl _
  | un op e ih => exact List.perm_append_comm.trans (ih.append_left [_])
  | bin op l r ihl ihr =>
    rw [parts, List.flatMap_cons, List.flatMap_append]
    exact List.perm_append_comm.trans ((ihl.append ihr).append_left [_])
  | cond c t e ihc iht ihe =>
    refine List.perm_iff_count.2 fun s => ?_
    have hc := ihc.count_eq s
    have ht := iht.count_eq s
    have he := ihe.count_eq s
    simp only [sites, parts, ownSites, List.flatMap_cons, List.flatMap_append, List.count_append,
      List.count_cons, List.count_nil] at hc ht he ⊢
    omega
  | paren e ih => exact ih

/-- **The checker reports every root cause in an expression once, and nothing that follows
    from one.**  The causes come in the order of evaluation, and by `Stmt.checkAll_concat`
    behind what was reported before. -/
theorem faults_root_causes (Γ : Scopes) (e : Expr) :
    (e.check Γ).2 = e.sites.filterMap (Site.cause? Γ) ∧
    e.sites.Perm (e.parts.flatMap ownSites) ∧
    ∀ before, (Stmt.checkAll Γ (before ++ [.expr e])).2 = (Stmt.checkAll Γ before).2 ++
      e.sites.filterMap (Site.cause? (Stmt.checkAll Γ before).1) := by
  refine ⟨e.faults_eq_causes, e.sites_perm, fun before => ?_⟩
  rw [Stmt.checkAll_concat, Stmt.check_expr, ← faults_eq_causes]

/-- An undeclared variable is reported, but not the sums that it is in.  A string under a
    minus sign and an int as a condition are reported as well. -/
example : (bin .add (bin .add (var "x") (lit .int "1"))
      (cond (lit .int "2") (un .minus (lit .string "s")) (lit .int "3"))).check .empty =
    (.error, [.notDeclared "x", .conditionType .ternary .int, .operandType .minus .string]) := by
  decide

end Expr

end StackLang
