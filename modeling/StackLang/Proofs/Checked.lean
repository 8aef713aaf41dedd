/-
  What the checker accepts.

  * the type that the checker gives an expression is its static type
    (`Expr.check_fst`), and the faults of an expression are those of its parts;
  * an expression without faults in scopes without the type `error` has a tag
    (`Expr.exists_tag`), and it has the same type and no faults in all scopes that
    declare at least as much (`Expr.typeOf_of_le`, `Expr.faults_of_le`);
  * the scopes behind a statement do not depend on its faults
    (`Stmt.check_fst`).
-/
import StackLang.Proofs.Follow

namespace StackLang

/-! ## Scopes -/

namespace Scopes

variable {Γ Γ' : Scopes} {x y : String} {t : Ty}

theorem declare_eq_ok : Γ.declare x t = .ok Γ' ↔
    Γ.current.get? x = none ∧ Γ' = { Γ with current := ⟨(x, t) :: Γ.current.bindings⟩ } := by
  unfold declare Scope.declare
  cases h : Γ.current.get? x with
  | none => simp [Except.map, eq_comm]
  | some _ => simp [Except.map]

/-- Behind a declaration the name has its type, and the other names are as
    before. -/
theorem get?_declare (h : Γ.declare x t = .ok Γ') (y : String) :
    Γ'.get? y = if y = x then some t else Γ.get? y := by
  obtain ⟨hx, rfl⟩ := declare_eq_ok.1 h
  have hd : Γ.current.declare x t = .ok ⟨(x, t) :: Γ.current.bindings⟩ := by
    rw [Scope.declare_eq_ok]; exact ⟨hx, rfl⟩
  simp only [get?, List.findSome?_cons, Scope.get?_declare hd y]
  by_cases hy : y = x <;> simp [hy]

theorem get?_checkDeclareAll : ∀ {xs : List String} {Γ Γ' : Scopes},
    Γ.checkDeclareAll t xs = (Γ', []) → ∀ y, Γ'.get? y = if y ∈ xs then some t else Γ.get? y
  | [], Γ, Γ', h, y => by
    simp only [checkDeclareAll, Prod.mk.injEq, and_true] at h
    simp [h]
  | x :: xs, Γ, Γ', h, y => by
    simp only [checkDeclareAll, checkDeclare] at h
    cases hd : Γ.declare x t with
    | error f => simp [hd] at h
    | ok Γ₁ =>
      simp only [hd, List.nil_append] at h
      rw [get?_checkDeclareAll (Γ := Γ₁) (by rw [← h]) y, get?_declare hd y]
      by_cases hy : y = x <;> simp [hy]

/-- The second scopes declare all that the first ones declare, with the same
    types. -/
def Le (Γ Γ' : Scopes) : Prop := ∀ x t, Γ.get? x = some t → Γ'.get? x = some t

/-- All variables have types from a list of declarations. -/
def From (Γ : Scopes) (Δ : List (String × Ty)) : Prop := ∀ x t, Γ.get? x = some t → (x, t) ∈ Δ

end Scopes

/-- Every type but the sentinel is that of a tag. -/
theorem Ty.exists_tag {t : Ty} (h : t ≠ .error) : ∃ tag : Tag, t = tag.ty := by
  cases t with
  | int => exact ⟨.int, rfl⟩
  | float => exact ⟨.float, rfl⟩
  | bool => exact ⟨.bool, rfl⟩
  | string => exact ⟨.string, rfl⟩
  | error => exact absurd rfl h

/-! ## Expressions -/

namespace Expr

variable {Γ Γ' : Scopes}

/-- The type that the checker finds is the static type. -/
theorem check_fst (e : Expr) : (e.check Γ).1 = e.typeOf Γ := by
  induction e with
  | lit => rfl
  | var x => simp only [check, typeOf]; cases Γ.get? x <;> rfl
  | un op e ih => simp only [check, typeOf, ih]
  | bin op l r ihl ihr => simp only [check, typeOf, ihl, ihr]
  | cond c t e _ iht ihe => simp only [check, typeOf, iht, ihe]
  | paren e ih => exact ih

theorem faults_var {x : String} : (var x).faults Γ = [] ↔ ∃ t, Γ.get? x = some t := by
  simp only [faults, check]
  cases Γ.get? x <;> simp

theorem faults_un {op : UnOp} {e : Expr} :
    (un op e).faults Γ = [] ↔ e.faults Γ = [] ∧ op.faults (e.typeOf Γ) = [] := by
  simp only [faults, check, check_fst, List.append_eq_nil_iff]

theorem faults_bin {op : BinOp} {l r : Expr} : (bin op l r).faults Γ = [] ↔
    l.faults Γ = [] ∧ r.faults Γ = [] ∧ op.faults (l.typeOf Γ) (r.typeOf Γ) = [] := by
  simp only [faults, check, check_fst, List.append_eq_nil_iff, and_assoc]

theorem faults_cond {c t e : Expr} : (cond c t e).faults Γ = [] ↔
    c.faults Γ = [] ∧ conditionFaults .ternary (c.typeOf Γ) = [] ∧ t.faults Γ = [] ∧
      e.faults Γ = [] ∧ branchFaults (t.typeOf Γ) (e.typeOf Γ) = [] := by
  simp only [faults, check, check_fst, List.append_eq_nil_iff, and_assoc]

/-- An expression without faults has the same type in larger scopes. -/
theorem typeOf_of_le (h : Γ.Le Γ') {e : Expr} (he : e.faults Γ = []) :
    e.typeOf Γ' = e.typeOf Γ := by
  induction e with
  | lit => rfl
  | var x =>
    obtain ⟨t, ht⟩ := faults_var.1 he
    simp only [typeOf, ht, h x t ht]
  | un op e ih => simp only [typeOf, ih (faults_un.1 he).1]
  | bin op l r ihl ihr =>
    obtain ⟨hl, hr, -⟩ := faults_bin.1 he
    simp only [typeOf, ihl hl, ihr hr]
  | cond c t e _ iht ihe =>
    obtain ⟨-, -, ht, he, -⟩ := faults_cond.1 he
    simp only [typeOf, iht ht, ihe he]
  | paren e ih => exact ih he

/-- An expression without faults has none in larger scopes. -/
theorem faults_of_le (h : Γ.Le Γ') {e : Expr} (he : e.faults Γ = []) : e.faults Γ' = [] := by
  induction e with
  | lit => rfl
  | var x =>
    obtain ⟨t, ht⟩ := faults_var.1 he
    exact faults_var.2 ⟨t, h x t ht⟩
  | un op e ih =>
    obtain ⟨h₁, h₂⟩ := faults_un.1 he
    exact faults_un.2 ⟨ih h₁, by rwa [typeOf_of_le h h₁]⟩
  | bin op l r ihl ihr =>
    obtain ⟨hl, hr, ho⟩ := faults_bin.1 he
    exact faults_bin.2 ⟨ihl hl, ihr hr, by rwa [typeOf_of_le h hl, typeOf_of_le h hr]⟩
  | cond c t e ihc iht ihe =>
    obtain ⟨hc, hcond, ht, he, hb⟩ := faults_cond.1 he
    exact faults_cond.2 ⟨ihc hc, by rwa [typeOf_of_le h hc], iht ht, ihe he,
      by rwa [typeOf_of_le h ht, typeOf_of_le h he]⟩
  | paren e ih => exact ih he

/-- An expression without faults has a tag, if no variable has the type
    `error`. -/
theorem exists_tag (hΓ : ∀ x, Γ.get? x ≠ some .error) {e : Expr} (he : e.faults Γ = []) :
    ∃ tag : Tag, e.typeOf Γ = tag.ty := by
  refine Ty.exists_tag ?_
  induction e with
  | lit tag => cases tag <;> simp [typeOf, Tag.ty]
  | var x =>
    obtain ⟨t, ht⟩ := faults_var.1 he
    simp only [typeOf, ht, Option.getD_some]
    rintro rfl
    exact hΓ x ht
  | un op e ih =>
    obtain ⟨h₁, h₂⟩ := faults_un.1 he
    simpa [UnOp.faults, typeOf, ih h₁] using h₂
  | bin op l r ihl ihr =>
    obtain ⟨hl, hr, ho⟩ := faults_bin.1 he
    simpa [BinOp.faults, typeOf, ihl hl, ihr hr] using ho
  | cond c t e _ iht ihe =>
    obtain ⟨-, -, ht, he, hb⟩ := faults_cond.1 he
    simpa [branchFaults, typeOf, iht ht, ihe he] using hb
  | paren e ih => exact ih he

end Expr

/-! ## Statements -/

theorem Scopes.checkDeclare_outer {Γ : Scopes} {x : String} {t : Ty} :
    (Γ.checkDeclare x t).1.outer = Γ.outer := by
  unfold checkDeclare
  cases h : Γ.declare x t with
  | ok Γ' => exact declare_outer h
  | error f => rfl

theorem Scopes.checkDeclareAll_outer {t : Ty} : ∀ (xs : List String) {Γ : Scopes},
    (Γ.checkDeclareAll t xs).1.outer = Γ.outer
  | [], _ => rfl
  | _ :: xs, _ => (checkDeclareAll_outer xs).trans checkDeclare_outer

theorem ForInit.check_fst {Γ : Scopes} {o : Option ForInit} :
    (ForInit.checkOption Γ o).1 = ForInit.after Γ o := by
  rcases o with _ | _ | _ <;> rfl

theorem ForInit.after_outer {Γ : Scopes} {o : Option ForInit} :
    (ForInit.after Γ o).outer = Γ.outer := by
  rcases o with _ | _ | _
  · rfl
  · exact Scopes.checkDeclare_outer
  · rfl

mutual

theorem Stmt.after_outer : ∀ (s : Stmt) {Γ : Scopes}, (s.after Γ).outer = Γ.outer
  | .decl _ xs, _ => Scopes.checkDeclareAll_outer xs
  | .ifElse _ t e, _ => (Stmt.afterOption_outer e).trans t.after_outer
  | .whileLoop _ b, _ => b.after_outer
  | .assign _ _, _ | .expr _, _ | .write _, _ | .read _, _ | .forLoop _ _ _ _, _ | .block _, _ => rfl

theorem Stmt.afterOption_outer : ∀ (o : Option Stmt) {Γ : Scopes},
    (Stmt.afterOption Γ o).outer = Γ.outer
  | none, _ => rfl
  | some s, _ => s.after_outer

end

mutual

/-- The scopes behind a statement do not depend on its faults. -/
theorem Stmt.check_fst : ∀ (s : Stmt) {Γ : Scopes}, (s.check Γ).1 = s.after Γ
  | .decl _ _, _ | .assign _ _, _ | .expr _, _ | .write _, _ | .read _, _ => rfl
  | .ifElse _ t e, Γ => by
    simp only [Stmt.check, Stmt.after, t.check_fst, Stmt.checkOption_fst e]
  | .whileLoop _ b, Γ => by simp only [Stmt.check, Stmt.after, b.check_fst]
  | .forLoop init c step b, Γ => by
    simp only [Stmt.check, Stmt.after, ForInit.check_fst, Stmt.checkOption_fst step, b.check_fst]
    refine Scopes.pop_of_outer ?_
    rw [Stmt.after_outer, Stmt.afterOption_outer, ForInit.after_outer]
  | .block ss, Γ => by
    simp only [Stmt.check, Stmt.after]
    exact Scopes.pop_of_outer (Stmt.checkAll_outer ss)

theorem Stmt.checkOption_fst : ∀ (o : Option Stmt) {Γ : Scopes},
    (Stmt.checkOption Γ o).1 = Stmt.afterOption Γ o
  | none, _ => rfl
  | some s, _ => s.check_fst

theorem Stmt.checkAll_outer : ∀ (ss : List Stmt) {Γ : Scopes},
    (Stmt.checkAll Γ ss).1.outer = Γ.outer
  | [], _ => rfl
  | s :: ss, Γ => by
    simp only [Stmt.checkAll, s.check_fst]
    exact (Stmt.checkAll_outer ss).trans s.after_outer

end

theorem Stmt.checkAll_cons_snd {Γ : Scopes} {s : Stmt} {ss : List Stmt} :
    (Stmt.checkAll Γ (s :: ss)).2 = (s.check Γ).2 ++ (Stmt.checkAll (s.after Γ) ss).2 := by
  simp only [Stmt.checkAll, s.check_fst]

/-- Faults found before are kept. -/
theorem Stmt.checkAll_append {ss ss' : List Stmt} : ∀ {Γ : Scopes}, Stmt.checkAll Γ (ss ++ ss') =
    ((Stmt.checkAll (Stmt.checkAll Γ ss).1 ss').1,
      (Stmt.checkAll Γ ss).2 ++ (Stmt.checkAll (Stmt.checkAll Γ ss).1 ss').2) := by
  induction ss with
  | nil => intro Γ; rfl
  | cons s ss ih =>
    intro Γ
    simp only [List.cons_append, Stmt.checkAll, ih, List.append_assoc]

theorem Stmt.checkAll_concat {ss : List Stmt} {s : Stmt} {Γ : Scopes} :
    Stmt.checkAll Γ (ss ++ [s]) =
      ((s.check (Stmt.checkAll Γ ss).1).1,
        (Stmt.checkAll Γ ss).2 ++ (s.check (Stmt.checkAll Γ ss).1).2) := by
  simp only [Stmt.checkAll_append, Stmt.checkAll, List.append_nil]

/-- An expression declares nothing. -/
theorem Stmt.check_expr (Γ : Scopes) (e : Expr) : (Stmt.expr e).check Γ = (Γ, e.faults Γ) := by
  rw [Stmt.check]

theorem Stmt.checkAll_singleton_snd {Γ : Scopes} {s : Stmt} :
    (Stmt.checkAll Γ [s]).2 = (s.check Γ).2 := by
  rw [Stmt.checkAll_cons_snd]
  exact List.append_nil _

theorem Stmt.checkOption_snd {Γ : Scopes} {o : Option Stmt} :
    (Stmt.checkOption Γ o).2 = (Stmt.checkAll Γ o.toList).2 := by
  cases o with
  | none => rfl
  | some s => exact Stmt.checkAll_singleton_snd.symm

theorem Scopes.checkAssign_eq_nil {Γ : Scopes} {x : String} {e : Expr} :
    Γ.checkAssign x e = [] ↔
      e.faults Γ = [] ∧ ∃ t, Γ.get? x = some t ∧ storeFaults x t (e.typeOf Γ) = [] := by
  simp only [checkAssign, Expr.faults, e.check_fst]
  cases Γ.get? x with
  | none => simp
  | some t => simp

theorem Expr.checkCondition_eq_nil {Γ : Scopes} {c : Construct} {e : Expr} :
    e.checkCondition Γ c = [] ↔ e.faults Γ = [] ∧ conditionFaults c (e.typeOf Γ) = [] := by
  simp only [checkCondition, Expr.faults, e.check_fst, List.append_eq_nil_iff]

/-! ## Declarations -/

/-- The declaration of the first part of a `for` loop, if it has one. -/
def ForInit.decls : Option ForInit → List (String × Ty)
  | some (.decl t x _) => [(x, t)]
  | _ => []

mutual

/-- All declarations of a statement, also those inside. -/
def Stmt.decls : Stmt → List (String × Ty)
  | .decl t xs => xs.map (·, t)
  | .ifElse _ t e => t.decls ++ Stmt.declsOption e
  | .whileLoop _ b => b.decls
  | .forLoop init _ step b => ForInit.decls init ++ Stmt.declsOption step ++ b.decls
  | .block ss => Stmt.declsAll ss
  | .assign _ _ | .expr _ | .write _ | .read _ => []

/-- All declarations of a statement, if there is one. -/
def Stmt.declsOption : Option Stmt → List (String × Ty)
  | none => []
  | some s => s.decls

/-- All declarations of statements. -/
def Stmt.declsAll : List Stmt → List (String × Ty)
  | [] => []
  | s :: ss => s.decls ++ Stmt.declsAll ss

end

theorem Stmt.declsOption_eq {o : Option Stmt} : Stmt.declsOption o = Stmt.declsAll o.toList := by
  cases o <;> simp [Stmt.declsOption, Stmt.declsAll]

theorem Stmt.declsAll_singleton {s : Stmt} : Stmt.declsAll [s] = s.decls := by
  simp [Stmt.declsAll]

theorem ForInit.Emits.from {Γ Γ' : Scopes} {n n' : Nat} {init : Option ForInit} {c : List Instr}
    {Δ : List (String × Ty)} (h : ForInit.Emits Γ n init c Γ' n') (hΓ : Γ.From Δ)
    (hd : ForInit.decls init ⊆ Δ) : Γ'.From Δ := by
  cases h with
  | none | assign => exact hΓ
  | decl _ hx =>
    intro y u hy
    rw [Scopes.get?_declare hx] at hy
    split at hy
    · next hyx =>
      obtain rfl := Option.some.inj hy
      exact hyx ▸ hd (List.mem_singleton_self _)
    · exact hΓ y u hy

/-- The scopes behind statements hold their declarations and those before. -/
theorem Stmt.EmitsAll.from {Γ Γ' : Scopes} {n n' : Nat} {ss : List Stmt} {c : List Instr}
    {Δ : List (String × Ty)} (h : Stmt.EmitsAll Γ n ss c Γ' n') (hΓ : Γ.From Δ)
    (hd : Stmt.declsAll ss ⊆ Δ) : Γ'.From Δ := by
  induction h with
  | nil | assign | expr | write | readNil | readCons | forLoop | block => exact hΓ
  | cons _ _ ih₁ ih₂ =>
    simp only [Stmt.declsAll, List.append_subset, List.append_nil] at hd ih₁
    exact ih₂ (ih₁ hΓ hd.1) hd.2
  | decl hx =>
    intro y u hy
    rw [Scopes.get?_checkDeclareAll hx] at hy
    split at hy
    · next hyx =>
      obtain rfl := Option.some.inj hy
      exact hd (by simpa [Stmt.declsAll_singleton, Stmt.decls] using hyx)
    · exact hΓ y u hy
  | ifElse _ _ _ iht ihe =>
    simp only [Stmt.declsAll_singleton, Stmt.decls, Stmt.declsOption_eq, List.append_subset] at hd iht
    exact ihe (iht hΓ hd.1) hd.2
  | whileLoop _ _ ih =>
    rw [Stmt.declsAll_singleton] at hd ih
    exact ih hΓ hd

/-- A name that is declared stays declared. -/
theorem Stmt.EmitsAll.isSome_get? {Γ Γ' : Scopes} {n n' : Nat} {ss : List Stmt} {c : List Instr}
    (h : Stmt.EmitsAll Γ n ss c Γ' n') {x : String} (hx : (Γ.get? x).isSome) :
    (Γ'.get? x).isSome := by
  induction h with
  | nil | assign | expr | write | readNil | readCons | forLoop | block => exact hx
  | cons _ _ ih₁ ih₂ => exact ih₂ (ih₁ hx)
  | decl hd =>
    rw [Scopes.get?_checkDeclareAll hd]
    split
    · rfl
    · exact hx
  | ifElse _ _ _ iht ihe => exact ihe (iht hx)
  | whileLoop _ _ ih => exact ih hx

/-- Every name has one type, and it is not `error`. -/
def Uniform (Δ : List (String × Ty)) : Prop :=
  ∀ d ∈ Δ, d.2 ≠ .error ∧ ∀ d' ∈ Δ, d.1 = d'.1 → d.2 = d'.2

instance (Δ : List (String × Ty)) : Decidable (Uniform Δ) :=
  inferInstanceAs (Decidable (∀ d ∈ Δ, d.2 ≠ .error ∧ ∀ d' ∈ Δ, d.1 = d'.1 → d.2 = d'.2))

theorem Uniform.unique {Δ : List (String × Ty)} (h : Uniform Δ) {x : String} {t t' : Ty}
    (ht : (x, t) ∈ Δ) (ht' : (x, t') ∈ Δ) : t = t' := (h _ ht).2 _ ht' rfl

theorem Uniform.proper {Δ : List (String × Ty)} (h : Uniform Δ) {x : String} :
    (x, .error) ∉ Δ := fun hx => (h _ hx).1 rfl

/-- If all declarations of a name agree, statements only add to the scopes. -/
theorem Stmt.EmitsAll.le {Γ Γ' : Scopes} {n n' : Nat} {ss : List Stmt} {c : List Instr}
    {Δ : List (String × Ty)} (hΔ : Uniform Δ) (h : Stmt.EmitsAll Γ n ss c Γ' n') (hΓ : Γ.From Δ)
    (hd : Stmt.declsAll ss ⊆ Δ) : Γ.Le Γ' := by
  intro x t hx
  obtain ⟨t', ht'⟩ := Option.isSome_iff_exists.1 (h.isSome_get? (x := x) (by simp [hx]))
  rw [ht', hΔ.unique (hΓ x t hx) (h.from hΓ hd x t' ht')]

theorem Uniform.ne_error {Γ : Scopes} {Δ : List (String × Ty)} (hΔ : Uniform Δ) (hΓ : Γ.From Δ)
    (x : String) : Γ.get? x ≠ some .error := fun hx => hΔ.proper (hΓ x _ hx)

/-! ## Programs -/

theorem Program.compile_eq_ok {p : Program} {code : List Instr} :
    p.compile = .ok code ↔ p.check.2 = [] ∧ p.gen = .ok code := by
  unfold Program.compile
  cases p.check.2 with
  | nil =>
    cases p.gen with
    | error f =>
      show Except.error [f] = Except.ok code ↔ _
      simp
    | ok c =>
      show Except.ok c = Except.ok code ↔ _
      simp
  | cons f fs => simp

end StackLang
