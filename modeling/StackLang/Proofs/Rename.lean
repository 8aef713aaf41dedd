/-
  Renaming a variable.

  A program may declare one name in several scopes, and each declaration has its
  own uses.  Some declarations of `x` are renamed to a name `y` that does not occur
  in the program, together with their uses.

  * `Stmt.Renames x y own s s' own'` relates a statement to the renamed one.  The
    flags say whether `x` means a renamed declaration, in front of the statement and
    behind it.  The body and the step of a `for` loop must have the same renamed uses
    in the order of the checker and in that of the generator;
  * `Scopes.Renames` relates the scopes of the two programs, by what they declare;
  * a program without faults has none when it is renamed (`Stmt.Renames.check`).
-/
import StackLang.Proofs.Generate

namespace StackLang

/-! ## Names -/

/-- The new name of a variable `z`, where `own` says whether `x` is renamed. -/
def newName (own : Bool) (x y z : String) : String := if own = true ∧ z = x then y else z

section

variable {own : Bool} {x y z : String}

@[simp] theorem newName_of_ne (h : z ≠ x) : newName own x y z = z := by simp [newName, h]

@[simp] theorem newName_false : newName false x y z = z := by simp [newName]

@[simp] theorem newName_true_self : newName true x y x = y := by simp [newName]

end

/-- Renames the variables of an expression. -/
def Expr.rename (f : String → String) : Expr → Expr
  | .lit tag text => .lit tag text
  | .var z => .var (f z)
  | .un op e => .un op (e.rename f)
  | .bin op l r => .bin op (l.rename f) (r.rename f)
  | .cond c t e => .cond (c.rename f) (t.rename f) (e.rename f)
  | .paren e => .paren (e.rename f)

/-- The variables of an expression. -/
def Expr.names : Expr → List String
  | .lit _ _ => []
  | .var z => [z]
  | .un _ e | .paren e => e.names
  | .bin _ l r => l.names ++ r.names
  | .cond c t e => c.names ++ t.names ++ e.names

/-- The variables of the first part of a `for` loop. -/
def ForInit.names : Option ForInit → List String
  | none => []
  | some (.decl _ z e) | some (.assign z e) => z :: e.names

mutual

/-- The variables that a statement declares or uses. -/
def Stmt.names : Stmt → List String
  | .decl _ xs | .read xs => xs
  | .assign z e => z :: e.names
  | .expr e => e.names
  | .write es => es.flatMap Expr.names
  | .ifElse c t e => c.names ++ t.names ++ Stmt.namesOption e
  | .whileLoop c b => c.names ++ b.names
  | .forLoop init c step b =>
    ForInit.names init ++ c.toList.flatMap Expr.names ++ Stmt.namesOption step ++ b.names
  | .block ss => Stmt.namesAll ss

/-- The variables of a statement, if there is one. -/
def Stmt.namesOption : Option Stmt → List String
  | none => []
  | some s => s.names

/-- The variables that statements declare or use. -/
def Stmt.namesAll : List Stmt → List String
  | [] => []
  | s :: ss => s.names ++ Stmt.namesAll ss

end

theorem Stmt.namesOption_eq {o : Option Stmt} : Stmt.namesOption o = Stmt.namesAll o.toList := by
  cases o <;> simp [Stmt.namesOption, Stmt.namesAll]

theorem Stmt.namesAll_singleton {s : Stmt} : Stmt.namesAll [s] = s.names := by
  simp [Stmt.namesAll]

/-! ## The renamed program -/

/-- The renamed first part of a `for` loop.  A declared variable is not yet in scope
    in its own value. -/
inductive ForInit.Renames (x y : String) (own : Bool) :
    Option ForInit → Option ForInit → Bool → Prop
  | none : Renames x y own none none own
  | kept {t z e} : Renames x y own (some (.decl t z e))
      (some (.decl t z (e.rename (newName own x y)))) (own && z != x)
  | renamed {t e} : Renames x y own (some (.decl t x e))
      (some (.decl t y (e.rename (newName own x y)))) true
  | assign {z e} : Renames x y own (some (.assign z e))
      (some (.assign (newName own x y z) (e.rename (newName own x y)))) own

mutual

/-- The renamed statement.  Each declaration of `x` is kept or renamed. -/
def Stmt.Renames (x y : String) (own : Bool) : Stmt → Stmt → Bool → Prop
  | .decl t xs, s', own' =>
    s' = .decl t xs ∧ own' = (own && !xs.contains x) ∨
      x ∈ xs ∧ s' = .decl t (xs.map (newName true x y)) ∧ own' = true
  | .assign z e, s', own' =>
    s' = .assign (newName own x y z) (e.rename (newName own x y)) ∧ own' = own
  | .expr e, s', own' => s' = .expr (e.rename (newName own x y)) ∧ own' = own
  | .write es, s', own' => s' = .write (es.map (·.rename (newName own x y))) ∧ own' = own
  | .read xs, s', own' => s' = .read (xs.map (newName own x y)) ∧ own' = own
  | .ifElse c t e, s', own' => ∃ t' e' own₁,
    s' = .ifElse (c.rename (newName own x y)) t' e' ∧ t.Renames x y own t' own₁ ∧
      Stmt.RenamesOption x y own₁ e e' own'
  | .whileLoop c b, s', own' => ∃ b',
    s' = .whileLoop (c.rename (newName own x y)) b' ∧ b.Renames x y own b' own'
  | .forLoop init c step b, s', own' => own' = own ∧ ∃ init' step' b' own₁,
    s' = .forLoop init' (c.map (·.rename (newName own₁ x y))) step' b' ∧
      ForInit.Renames x y own init init' own₁ ∧
      (∃ own₂ own₃, Stmt.RenamesOption x y own₁ step step' own₂ ∧ b.Renames x y own₂ b' own₃) ∧
      ∃ own₂ own₃, b.Renames x y own₁ b' own₂ ∧ Stmt.RenamesOption x y own₂ step step' own₃
  | .block ss, s', own' => own' = own ∧ ∃ ss' own₁,
    s' = .block ss' ∧ Stmt.RenamesAll x y own ss ss' own₁

/-- The renamed statement, if there is one. -/
def Stmt.RenamesOption (x y : String) (own : Bool) : Option Stmt → Option Stmt → Bool → Prop
  | none, o', own' => o' = none ∧ own' = own
  | some s, o', own' => ∃ s', o' = some s' ∧ s.Renames x y own s' own'

/-- The renamed statements. -/
def Stmt.RenamesAll (x y : String) (own : Bool) : List Stmt → List Stmt → Bool → Prop
  | [], ss', own' => ss' = [] ∧ own' = own
  | s :: ss, l', own' => ∃ s' ss' own₁,
    l' = s' :: ss' ∧ s.Renames x y own s' own₁ ∧ Stmt.RenamesAll x y own₁ ss ss' own'

end

/-! ## Scopes -/

theorem Scopes.current_declare {Γ Γ' : Scopes} {x : String} {t : Ty} (h : Γ.declare x t = .ok Γ')
    (w : String) : Γ'.current.get? w = if w = x then some t else Γ.current.get? w := by
  obtain ⟨hx, rfl⟩ := Scopes.declare_eq_ok.1 h
  exact Scope.get?_declare (Scope.declare_eq_ok.2 ⟨hx, rfl⟩) w

theorem Scopes.checkDeclareAll_cons {Γ Γ' : Scopes} {t : Ty} {x : String} {xs : List String} :
    Γ.checkDeclareAll t (x :: xs) = (Γ', []) ↔
      ∃ Γ₁, Γ.declare x t = .ok Γ₁ ∧ Γ₁.checkDeclareAll t xs = (Γ', []) := by
  simp only [checkDeclareAll, checkDeclare]
  cases Γ.declare x t with
  | error f => simp
  | ok Γ₁ => simp [Prod.ext_iff]

/-- The second scopes declare `y` where the first ones declare a renamed `x`. -/
structure Scopes.Renames (x y : String) (own : Bool) (Γ Γ' : Scopes) : Prop where
  get? : ∀ z, z ≠ y → Γ'.get? (newName own x y z) = Γ.get? z
  /-- what is new in the current scope is so in the other one -/
  here : ∀ z, z ≠ y → Γ.current.get? z = none → Γ'.current.get? z = none
  /-- and if `x` is new, so is `y` -/
  fresh : Γ.current.get? x = none → Γ'.current.get? y = none

namespace Scopes.Renames

variable {x y z : String} {own : Bool} {t : Ty} {Γ Γ' Γ₁ : Scopes}

theorem empty : Scopes.Renames x y own .empty .empty :=
  ⟨fun _ _ => rfl, fun _ _ _ => rfl, fun _ => rfl⟩

theorem push (h : Scopes.Renames x y own Γ Γ') : Scopes.Renames x y own Γ.push Γ'.push :=
  ⟨h.get?, fun _ _ _ => rfl, fun _ => rfl⟩

/-- A declaration that is kept hides what `x` meant. -/
theorem declare (h : Scopes.Renames x y own Γ Γ') (hz : z ≠ y) (hd : Γ.declare z t = .ok Γ₁) :
    ∃ Γ₁', Γ'.declare z t = .ok Γ₁' ∧ Scopes.Renames x y (own && z != x) Γ₁ Γ₁' := by
  have hd' := Scopes.declare_eq_ok (t := t).2 ⟨h.here z hz (Scopes.declare_eq_ok.1 hd).1, rfl⟩
  refine ⟨_, hd', fun w hw => ?_, fun w hw hnone => ?_, fun hnone => ?_⟩
  · rw [Scopes.get?_declare hd', Scopes.get?_declare hd]
    by_cases hwz : w = z
    · by_cases hzx : z = x <;> simp [newName, hwz, hzx]
    · by_cases hwx : w = x
      · have hflag : (own && z != x) = own := by simpa using fun _ he => hwz (hwx.trans he.symm)
        have hne : newName own x y w ≠ z := by
          unfold newName
          split
          · exact hz.symm
          · exact hwz
        rw [hflag, if_neg hne, if_neg hwz]
        exact h.get? w hw
      · simpa [hwx, hwz] using h.get? w hw
  · rw [Scopes.current_declare hd] at hnone
    rw [Scopes.current_declare hd']
    split at hnone
    · cases hnone
    · next hwz => rw [if_neg hwz]; exact h.here w hw hnone
  · rw [Scopes.current_declare hd] at hnone
    rw [Scopes.current_declare hd', if_neg hz.symm]
    split at hnone
    · cases hnone
    · exact h.fresh hnone

/-- A declaration of `x` that is renamed. -/
theorem declare_self (h : Scopes.Renames x y own Γ Γ') (hd : Γ.declare x t = .ok Γ₁) :
    ∃ Γ₁', Γ'.declare y t = .ok Γ₁' ∧ Scopes.Renames x y true Γ₁ Γ₁' := by
  have hd' := Scopes.declare_eq_ok (t := t).2 ⟨h.fresh (Scopes.declare_eq_ok.1 hd).1, rfl⟩
  refine ⟨_, hd', fun w hw => ?_, fun w hw hnone => ?_, fun hnone => ?_⟩
  · rw [Scopes.get?_declare hd', Scopes.get?_declare hd]
    by_cases hwx : w = x
    · simp [hwx]
    · simpa [hwx, hw] using h.get? w hw
  · rw [Scopes.current_declare hd] at hnone
    rw [Scopes.current_declare hd', if_neg hw]
    split at hnone
    · cases hnone
    · exact h.here w hw hnone
  · rw [Scopes.current_declare hd, if_pos rfl] at hnone
    cases hnone

theorem checkDeclareAll : ∀ {xs : List String} {own : Bool} {Γ Γ' Γ₁ : Scopes},
    Scopes.Renames x y own Γ Γ' → y ∉ xs → Γ.checkDeclareAll t xs = (Γ₁, []) →
    ∃ Γ₁', Γ'.checkDeclareAll t xs = (Γ₁', []) ∧
      Scopes.Renames x y (own && !xs.contains x) Γ₁ Γ₁'
  | [], own, Γ, Γ', Γ₁, h, _, hc => by
    obtain rfl : Γ = Γ₁ := (Prod.mk.inj hc).1
    exact ⟨Γ', rfl, by simpa using h⟩
  | z :: zs, own, Γ, Γ', Γ₁, h, hy, hc => by
    simp only [List.mem_cons, not_or] at hy
    obtain ⟨Γ₂, hd, hzs⟩ := Scopes.checkDeclareAll_cons.1 hc
    obtain ⟨Γ₂', hd', h₂⟩ := h.declare (Ne.symm hy.1) hd
    obtain ⟨Γ₁', hc', h₁⟩ := checkDeclareAll h₂ hy.2 hzs
    refine ⟨Γ₁', Scopes.checkDeclareAll_cons.2 ⟨Γ₂', hd', hc'⟩, ?_⟩
    have hflag : (own && !(z :: zs).contains x) = (own && z != x && !zs.contains x) := by
      by_cases hzx : x = z
      · simp [hzx]
      · have hne : (z != x) = true := by simpa using Ne.symm hzx
        simp [hzx, hne]
    rwa [hflag]

theorem checkDeclareAll_self : ∀ {xs : List String} {own : Bool} {Γ Γ' Γ₁ : Scopes},
    Scopes.Renames x y own Γ Γ' → y ∉ xs → Γ.checkDeclareAll t xs = (Γ₁, []) →
    ∃ Γ₁', Γ'.checkDeclareAll t (xs.map (newName true x y)) = (Γ₁', []) ∧
      Scopes.Renames x y (own || xs.contains x) Γ₁ Γ₁'
  | [], own, Γ, Γ', Γ₁, h, _, hc => by
    obtain rfl : Γ = Γ₁ := (Prod.mk.inj hc).1
    exact ⟨Γ', rfl, by simpa using h⟩
  | z :: zs, own, Γ, Γ', Γ₁, h, hy, hc => by
    simp only [List.mem_cons, not_or] at hy
    obtain ⟨Γ₂, hd, hzs⟩ := Scopes.checkDeclareAll_cons.1 hc
    by_cases hzx : z = x
    · rw [hzx] at hd
      obtain ⟨Γ₂', hd', h₂⟩ := h.declare_self hd
      obtain ⟨Γ₁', hc', h₁⟩ := checkDeclareAll_self h₂ hy.2 hzs
      refine ⟨Γ₁', ?_, by simpa [hzx] using h₁⟩
      rw [List.map_cons, hzx, newName_true_self]
      exact Scopes.checkDeclareAll_cons.2 ⟨Γ₂', hd', hc'⟩
    · obtain ⟨Γ₂', hd', h₂⟩ := h.declare (Ne.symm hy.1) hd
      have hflag : (own && z != x) = own := by simp [hzx]
      rw [hflag] at h₂
      obtain ⟨Γ₁', hc', h₁⟩ := checkDeclareAll_self h₂ hy.2 hzs
      refine ⟨Γ₁', ?_, by simpa [Ne.symm hzx] using h₁⟩
      rw [List.map_cons, newName_of_ne hzx]
      exact Scopes.checkDeclareAll_cons.2 ⟨Γ₂', hd', hc'⟩

end Scopes.Renames

/-! ## Faults -/

section

variable {x y : String} {own own' : Bool} {Γ Γ' : Scopes}

namespace Expr

theorem typeOf_rename (h : Scopes.Renames x y own Γ Γ') {e : Expr} (hy : y ∉ e.names) :
    (e.rename (newName own x y)).typeOf Γ' = e.typeOf Γ := by
  induction e with
  | lit => rfl
  | var z =>
    simp only [names, List.mem_singleton] at hy
    simp only [rename, typeOf, h.get? z (Ne.symm hy)]
  | un op e ih => simp only [rename, typeOf, ih hy]
  | bin op l r ihl ihr =>
    simp only [names, List.mem_append, not_or] at hy
    simp only [rename, typeOf, ihl hy.1, ihr hy.2]
  | cond c t e _ iht ihe =>
    simp only [names, List.mem_append, not_or] at hy
    simp only [rename, typeOf, iht hy.1.2, ihe hy.2]
  | paren e ih => exact ih hy

theorem faults_rename (h : Scopes.Renames x y own Γ Γ') {e : Expr} (hy : y ∉ e.names)
    (he : e.faults Γ = []) : (e.rename (newName own x y)).faults Γ' = [] := by
  induction e with
  | lit => rfl
  | var z =>
    simp only [names, List.mem_singleton] at hy
    obtain ⟨t, ht⟩ := faults_var.1 he
    exact faults_var.2 ⟨t, by rw [h.get? z (Ne.symm hy), ht]⟩
  | un op e ih =>
    obtain ⟨h₁, h₂⟩ := faults_un.1 he
    exact faults_un.2 ⟨ih hy h₁, by rwa [typeOf_rename (e := e) h hy]⟩
  | bin op l r ihl ihr =>
    simp only [names, List.mem_append, not_or] at hy
    obtain ⟨hl, hr, ho⟩ := faults_bin.1 he
    exact faults_bin.2 ⟨ihl hy.1 hl, ihr hy.2 hr,
      by rwa [typeOf_rename h hy.1, typeOf_rename h hy.2]⟩
  | cond c t e ihc iht ihe =>
    simp only [names, List.mem_append, not_or] at hy
    obtain ⟨hc, hcond, ht, he, hb⟩ := faults_cond.1 he
    exact faults_cond.2 ⟨ihc hy.1.1 hc, by rwa [typeOf_rename h hy.1.1], iht hy.1.2 ht,
      ihe hy.2 he, by rwa [typeOf_rename h hy.1.2, typeOf_rename h hy.2]⟩
  | paren e ih => exact ih hy he

theorem checkCondition_rename (h : Scopes.Renames x y own Γ Γ') {c : Construct} {e : Expr}
    (hy : y ∉ e.names) (he : e.checkCondition Γ c = []) :
    (e.rename (newName own x y)).checkCondition Γ' c = [] := by
  obtain ⟨hf, hc⟩ := checkCondition_eq_nil.1 he
  exact checkCondition_eq_nil.2 ⟨faults_rename h hy hf, by rwa [typeOf_rename h hy]⟩

end Expr

/-- The fault of a store names the variable, but whether there is one does not
    depend on the name. -/
theorem storeFaults_eq_nil {z w : String} {t u : Ty} (h : storeFaults z t u = []) :
    storeFaults w t u = [] := by
  unfold storeFaults at h ⊢
  split at h
  · next ht => rw [if_pos ht]
  · cases h

theorem Scopes.Renames.checkAssign (h : Scopes.Renames x y own Γ Γ') {z : String} {e : Expr}
    (hz : z ≠ y) (hy : y ∉ e.names) (he : Γ.checkAssign z e = []) :
    Γ'.checkAssign (newName own x y z) (e.rename (newName own x y)) = [] := by
  obtain ⟨hf, t, ht, hs⟩ := checkAssign_eq_nil.1 he
  exact checkAssign_eq_nil.2 ⟨Expr.faults_rename h hy hf, t, by rw [h.get? z hz, ht],
    by rw [Expr.typeOf_rename h hy]; exact storeFaults_eq_nil hs⟩

theorem ForInit.after_of_declare {t : Ty} {z : String} {e : Expr} {Γ₁ : Scopes}
    (h : Γ.declare z t = .ok Γ₁) : ForInit.after Γ (some (.decl t z e)) = Γ₁ := by
  simp [after, Scopes.checkDeclare, h]

theorem ForInit.check_decl_eq_nil {t : Ty} {z : String} {e : Expr} :
    (ForInit.checkOption Γ (some (.decl t z e))).2 = [] ↔ e.faults Γ = [] ∧
      storeFaults z t (e.typeOf Γ) = [] ∧ ∃ Γ₁, Γ.declare z t = .ok Γ₁ := by
  simp only [checkOption, check, Scopes.checkDeclare, Expr.faults, e.check_fst,
    List.append_eq_nil_iff, and_assoc]
  cases Γ.declare z t <;> simp

theorem ForInit.check_decl_rename (h : Scopes.Renames x y own Γ Γ') {t : Ty} {z z' : String}
    {e : Expr} {Γ₁' : Scopes} (hy : y ∉ e.names)
    (hc : (ForInit.checkOption Γ (some (.decl t z e))).2 = []) (hd : Γ'.declare z' t = .ok Γ₁') :
    (ForInit.checkOption Γ' (some (.decl t z' (e.rename (newName own x y))))).2 = [] := by
  obtain ⟨hf, hs, -⟩ := check_decl_eq_nil.1 hc
  refine check_decl_eq_nil.2 ⟨Expr.faults_rename h hy hf, ?_, Γ₁', hd⟩
  rw [Expr.typeOf_rename h hy]
  exact storeFaults_eq_nil hs

theorem ForInit.Renames.check {init init' : Option ForInit}
    (hr : ForInit.Renames x y own init init' own') (h : Scopes.Renames x y own Γ Γ')
    (hy : y ∉ ForInit.names init) (hc : (ForInit.checkOption Γ init).2 = []) :
    (ForInit.checkOption Γ' init').2 = [] ∧
      Scopes.Renames x y own' (ForInit.after Γ init) (ForInit.after Γ' init') := by
  cases hr with
  | none => exact ⟨rfl, h⟩
  | assign =>
    simp only [names, List.mem_cons, not_or] at hy
    exact ⟨h.checkAssign (Ne.symm hy.1) hy.2 hc, h⟩
  | kept =>
    simp only [names, List.mem_cons, not_or] at hy
    obtain ⟨-, -, Γ₁, hd⟩ := check_decl_eq_nil.1 hc
    obtain ⟨Γ₁', hd', h₁⟩ := h.declare (Ne.symm hy.1) hd
    rw [after_of_declare hd, after_of_declare hd']
    exact ⟨check_decl_rename h hy.2 hc hd', h₁⟩
  | renamed =>
    simp only [names, List.mem_cons, not_or] at hy
    obtain ⟨-, -, Γ₁, hd⟩ := check_decl_eq_nil.1 hc
    obtain ⟨Γ₁', hd', h₁⟩ := h.declare_self hd
    rw [after_of_declare hd, after_of_declare hd']
    exact ⟨check_decl_rename h hy.2 hc hd', h₁⟩

mutual

/-- **A statement without faults has none when it is renamed.** -/
theorem Stmt.Renames.check : ∀ {s s' : Stmt} {own own' : Bool} {Γ Γ' : Scopes},
    s.Renames x y own s' own' → Scopes.Renames x y own Γ Γ' → y ∉ s.names → (s.check Γ).2 = [] →
    (s'.check Γ').2 = [] ∧ Scopes.Renames x y own' (s.after Γ) (s'.after Γ')
  | .decl t xs, s', own, own', Γ, Γ', hr, h, hy, hc => by
    have hxs : Γ.checkDeclareAll t xs = ((Γ.checkDeclareAll t xs).1, []) := Prod.ext rfl hc
    replace hy : y ∉ xs := hy
    obtain ⟨rfl, rfl⟩ | ⟨hx, rfl, rfl⟩ := hr
    · obtain ⟨Γ₁', hc', h₁⟩ := h.checkDeclareAll hy hxs
      simp only [Stmt.check, Stmt.after, hc']
      exact ⟨trivial, h₁⟩
    · obtain ⟨Γ₁', hc', h₁⟩ := h.checkDeclareAll_self hy hxs
      simp only [Stmt.check, Stmt.after, hc']
      exact ⟨trivial, by simpa [hx] using h₁⟩
  | .assign z e, s', own, own', Γ, Γ', hr, h, hy, hc => by
    obtain ⟨rfl, rfl⟩ := hr
    simp only [Stmt.names, List.mem_cons, not_or] at hy
    exact ⟨h.checkAssign (Ne.symm hy.1) hy.2 hc, h⟩
  | .expr e, s', own, own', Γ, Γ', hr, h, hy, hc => by
    obtain ⟨rfl, rfl⟩ := hr
    exact ⟨Expr.faults_rename h hy hc, h⟩
  | .write es, s', own, own', Γ, Γ', hr, h, hy, hc => by
    obtain ⟨rfl, rfl⟩ := hr
    refine ⟨?_, h⟩
    simp only [Stmt.check, List.flatMap_map, List.flatMap_eq_nil_iff] at hc ⊢
    intro e he
    exact Expr.faults_rename h (fun hye => hy (List.mem_flatMap.2 ⟨e, he, hye⟩)) (hc e he)
  | .read xs, s', own, own', Γ, Γ', hr, h, hy, hc => by
    obtain ⟨rfl, rfl⟩ := hr
    refine ⟨?_, h⟩
    simp only [Stmt.check, List.flatMap_map, List.flatMap_eq_nil_iff] at hc ⊢
    intro z hz
    have hzy : z ≠ y := fun he => hy (he ▸ hz)
    simpa [Scopes.readFaults, h.get? z hzy] using hc z hz
  | .ifElse c t e, s', own, own', Γ, Γ', hr, h, hy, hc => by
    obtain ⟨t', e', own₁, rfl, ht, he⟩ := hr
    simp only [Stmt.names, List.mem_append, not_or] at hy
    simp only [Stmt.check, Stmt.check_fst, List.append_eq_nil_iff] at hc ⊢
    obtain ⟨ht', h₁⟩ := Stmt.Renames.check ht h hy.1.2 hc.1.2
    obtain ⟨he', h₂⟩ := Stmt.RenamesOption.check he h₁ hy.2 hc.2
    exact ⟨⟨⟨Expr.checkCondition_rename h hy.1.1 hc.1.1, ht'⟩, he'⟩, h₂⟩
  | .whileLoop c b, s', own, own', Γ, Γ', hr, h, hy, hc => by
    obtain ⟨b', rfl, hb⟩ := hr
    simp only [Stmt.names, List.mem_append, not_or] at hy
    simp only [Stmt.check, List.append_eq_nil_iff] at hc ⊢
    obtain ⟨hb', h₁⟩ := Stmt.Renames.check hb h hy.2 hc.2
    exact ⟨⟨Expr.checkCondition_rename h hy.1 hc.1, hb'⟩, h₁⟩
  | .forLoop init c step b, s', own, own', Γ, Γ', hr, h, hy, hc => by
    -- the checker visits the step in front of the body
    obtain ⟨rfl, init', step', b', own₁, rfl, hi, ⟨own₂, own₃, hs, hb⟩, -⟩ := hr
    simp only [Stmt.names, List.mem_append, not_or] at hy
    obtain ⟨⟨⟨hyi, hyc⟩, hys⟩, hyb⟩ := hy
    simp only [Stmt.check, ForInit.check_fst, Stmt.checkOption_fst, List.append_eq_nil_iff] at hc ⊢
    obtain ⟨⟨⟨hci, hcc⟩, hcs⟩, hcb⟩ := hc
    obtain ⟨hi', h₁⟩ := hi.check h.push hyi hci
    obtain ⟨hs', h₂⟩ := Stmt.RenamesOption.check hs h₁ hys hcs
    obtain ⟨hb', -⟩ := Stmt.Renames.check hb h₂ hyb hcb
    refine ⟨⟨⟨⟨hi', ?_⟩, hs'⟩, hb'⟩, h⟩
    cases c with
    | none => rfl
    | some c => exact Expr.checkCondition_rename h₁ (by simpa using hyc) hcc
  | .block ss, s', own, own', Γ, Γ', hr, h, hy, hc => by
    obtain ⟨rfl, ss', own₁, rfl, hss⟩ := hr
    exact ⟨(Stmt.RenamesAll.check hss h.push hy hc).1, h⟩

theorem Stmt.RenamesOption.check : ∀ {o o' : Option Stmt} {own own' : Bool} {Γ Γ' : Scopes},
    Stmt.RenamesOption x y own o o' own' → Scopes.Renames x y own Γ Γ' →
    y ∉ Stmt.namesOption o → (Stmt.checkOption Γ o).2 = [] → (Stmt.checkOption Γ' o').2 = [] ∧
      Scopes.Renames x y own' (Stmt.afterOption Γ o) (Stmt.afterOption Γ' o')
  | none, _, _, _, _, _, hr, h, _, _ => by
    obtain ⟨rfl, rfl⟩ := hr
    exact ⟨rfl, h⟩
  | some s, _, _, _, _, _, hr, h, hy, hc => by
    obtain ⟨s', rfl, hs⟩ := hr
    exact Stmt.Renames.check hs h hy hc

theorem Stmt.RenamesAll.check : ∀ {ss ss' : List Stmt} {own own' : Bool} {Γ Γ' : Scopes},
    Stmt.RenamesAll x y own ss ss' own' → Scopes.Renames x y own Γ Γ' →
    y ∉ Stmt.namesAll ss → (Stmt.checkAll Γ ss).2 = [] → (Stmt.checkAll Γ' ss').2 = [] ∧
      Scopes.Renames x y own' (ss.foldl Stmt.after Γ) (ss'.foldl Stmt.after Γ')
  | [], _, _, _, _, _, hr, h, _, _ => by
    obtain ⟨rfl, rfl⟩ := hr
    exact ⟨rfl, h⟩
  | s :: ss, _, _, _, _, _, hr, h, hy, hc => by
    obtain ⟨s', ss', own₁, rfl, hs, hss⟩ := hr
    simp only [Stmt.namesAll, List.mem_append, not_or] at hy
    simp only [Stmt.checkAll_cons_snd, List.append_eq_nil_iff] at hc ⊢
    obtain ⟨hs', h₁⟩ := Stmt.Renames.check hs h hy.1 hc.1
    obtain ⟨hss', h₂⟩ := Stmt.RenamesAll.check hss h₁ hy.2 hc.2
    exact ⟨⟨hs', hss'⟩, h₂⟩

end

end

end StackLang
