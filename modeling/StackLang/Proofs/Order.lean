/-
  When a checked program generates.

  The checker visits the step of a `for` loop in front of its body, and the
  generator behind it.  Both declare into the scope of the loop, so each may see
  declarations that the other does not.

  * `Stmt.inOrder` asks of the bodies and steps of `for` loops that they resolve in
    the order of generation, and nothing of the rest;
  * `Stmt.separate` asks that the body of a `for` loop mentions no name that the step
    declares into the scope of the loop, and the step none that the body declares.
    Then the checker finds the same in both orders (`Stmt.check_congr`);
  * a program without faults and without declarations of the type `error` generates
    exactly if it is in order, and it is in order if it is separate
    (`Program.generates_iff_inOrder`).
-/
import Mathlib.Data.List.Basic
import StackLang.Proofs.Rename

namespace StackLang

/-! ## Scopes without the type `error` -/

/-- No variable has the type `error`. -/
def Scopes.Proper (Γ : Scopes) : Prop := ∀ x, Γ.get? x ≠ some .error

/-- No declaration has the type `error`. -/
def ProperDecls (Δ : List (String × Ty)) : Prop := ∀ d ∈ Δ, d.2 ≠ .error

instance (Δ : List (String × Ty)) : Decidable (ProperDecls Δ) :=
  inferInstanceAs (Decidable (∀ d ∈ Δ, d.2 ≠ .error))

@[simp] theorem properDecls_append {Δ Δ' : List (String × Ty)} :
    ProperDecls (Δ ++ Δ') ↔ ProperDecls Δ ∧ ProperDecls Δ' := List.forall_mem_append

theorem Scopes.proper_empty : Scopes.empty.Proper := by
  intro x
  simp [get?, empty, Scope.get?]

theorem Scopes.Proper.checkDeclare {Γ : Scopes} {x : String} {t : Ty} (hΓ : Γ.Proper)
    (ht : t ≠ .error) : (Γ.checkDeclare x t).1.Proper := by
  unfold Scopes.checkDeclare
  cases hd : Γ.declare x t with
  | error f => exact hΓ
  | ok Γ' =>
    intro y
    rw [Scopes.get?_declare hd y]
    split
    · simpa using ht
    · exact hΓ y

theorem Scopes.Proper.checkDeclareAll {t : Ty} (ht : t ≠ .error) : ∀ (xs : List String)
    {Γ : Scopes}, Γ.Proper → (Γ.checkDeclareAll t xs).1.Proper
  | [], _, hΓ => hΓ
  | _ :: xs, _, hΓ => checkDeclareAll ht xs (hΓ.checkDeclare ht)

theorem ForInit.after_proper {Γ : Scopes} {init : Option ForInit} (hΓ : Γ.Proper)
    (hd : ProperDecls (ForInit.decls init)) : (ForInit.after Γ init).Proper := by
  rcases init with _ | ⟨t, x, e⟩ | ⟨x, e⟩
  · exact hΓ
  · exact hΓ.checkDeclare (hd (x, t) (List.mem_singleton_self _))
  · exact hΓ

mutual

theorem Stmt.after_proper : ∀ {s : Stmt} {Γ : Scopes}, Γ.Proper → ProperDecls s.decls →
    (s.after Γ).Proper
  | .decl _ [], _, hΓ, _ => hΓ
  | .decl t (x :: xs), Γ, hΓ, hd =>
    hΓ.checkDeclareAll (hd (x, t) (by simp [Stmt.decls])) (x :: xs)
  | .ifElse _ t e, Γ, hΓ, hd => by
    simp only [Stmt.decls, properDecls_append] at hd
    exact Stmt.afterOption_proper (Stmt.after_proper hΓ hd.1) hd.2
  | .whileLoop _ b, Γ, hΓ, hd => Stmt.after_proper (s := b) hΓ hd
  | .assign _ _, _, hΓ, _ | .expr _, _, hΓ, _ | .write _, _, hΓ, _ | .read _, _, hΓ, _
  | .forLoop _ _ _ _, _, hΓ, _ | .block _, _, hΓ, _ => hΓ

theorem Stmt.afterOption_proper : ∀ {o : Option Stmt} {Γ : Scopes}, Γ.Proper →
    ProperDecls (Stmt.declsOption o) → (Stmt.afterOption Γ o).Proper
  | none, _, hΓ, _ => hΓ
  | some _, _, hΓ, hd => Stmt.after_proper hΓ hd

end

/-! ## Expressions without faults resolve -/

/-- An operator that has a result has operands with the types that code needs. -/
theorem BinOp.resolves_of_result {op : BinOp} {l r : Ty} (h : op.result l r ≠ .error) :
    op.resolves l r = true := by
  cases op <;> cases l <;> cases r <;> first | rfl | exact absurd rfl h

theorem Expr.resolves_of_faults {Γ : Scopes} (hΓ : Γ.Proper) {e : Expr} (he : e.faults Γ = []) :
    e.resolves Γ = true := by
  induction e with
  | lit | var => rfl
  | un op e ih => exact ih (faults_un.1 he).1
  | bin op l r ihl ihr =>
    obtain ⟨hl, hr, -⟩ := faults_bin.1 he
    obtain ⟨tag, ht⟩ := exists_tag hΓ he
    have ho : op.result (l.typeOf Γ) (r.typeOf Γ) ≠ .error := by
      rw [show op.result (l.typeOf Γ) (r.typeOf Γ) = tag.ty from ht]
      cases tag <;> simp [Tag.ty]
    simp [resolves, ihl hl, ihr hr, BinOp.resolves_of_result ho]
  | cond c t e ihc iht ihe =>
    obtain ⟨hc, -, ht, he, -⟩ := faults_cond.1 he
    simp [resolves, ihc hc, iht ht, ihe he]
  | paren e ih => exact ih he

theorem Scopes.resolves_of_checkAssign {Γ : Scopes} (hΓ : Γ.Proper) {x : String} {e : Expr}
    (h : Γ.checkAssign x e = []) : ((Γ.get? x).isSome && e.resolves Γ) = true := by
  obtain ⟨he, t, hx, -⟩ := checkAssign_eq_nil.1 h
  simp [hx, Expr.resolves_of_faults hΓ he]

theorem Expr.resolves_of_checkCondition {Γ : Scopes} (hΓ : Γ.Proper) {c : Construct} {e : Expr}
    (h : e.checkCondition Γ c = []) : e.resolves Γ = true :=
  resolves_of_faults hΓ (checkCondition_eq_nil.1 h).1

theorem ForInit.resolves_of_check {Γ : Scopes} (hΓ : Γ.Proper) {init : Option ForInit}
    (h : (ForInit.checkOption Γ init).2 = []) : ForInit.resolves Γ init = true := by
  rcases init with _ | ⟨t, x, e⟩ | ⟨x, e⟩
  · rfl
  · simp only [checkOption, check, Scopes.checkDeclare, List.append_eq_nil_iff] at h
    obtain ⟨⟨he, -⟩, hd⟩ := h
    cases hx : Γ.declare x t with
    | error f => simp [hx] at hd
    | ok Γ' =>
      simp [resolves, Expr.resolves_of_faults hΓ he, Scopes.declaresHere,
        (Scopes.declare_eq_ok.1 hx).1]
  · exact Scopes.resolves_of_checkAssign hΓ h

/-! ## The order of generation -/

mutual

/-- The body of each `for` loop resolves in front of its step, and the step behind
    the body. -/
def Stmt.inOrder (Γ : Scopes) : Stmt → Bool
  | .ifElse _ t e => t.inOrder Γ && Stmt.inOrderOption (t.after Γ) e
  | .whileLoop _ b => b.inOrder Γ
  | .forLoop init _ step b =>
    let Γ₁ := ForInit.after Γ.push init
    b.resolves Γ₁ && Stmt.resolvesOption (b.after Γ₁) step
  | .block ss => Stmt.inOrderAll Γ.push ss
  | .decl _ _ | .assign _ _ | .expr _ | .write _ | .read _ => true

/-- A statement is in order, if there is one. -/
def Stmt.inOrderOption (Γ : Scopes) : Option Stmt → Bool
  | none => true
  | some s => s.inOrder Γ

/-- Statements are in order. -/
def Stmt.inOrderAll (Γ : Scopes) : List Stmt → Bool
  | [] => true
  | s :: ss => s.inOrder Γ && Stmt.inOrderAll (s.after Γ) ss

end

theorem Stmt.resolves_read {Γ : Scopes} (hΓ : Γ.Proper) {xs : List String}
    (h : xs.flatMap Γ.readFaults = []) : (Stmt.read xs).resolves Γ = true := by
  simp only [resolves, List.all_eq_true]
  intro x hx
  have hf := List.flatMap_eq_nil_iff.1 h x hx
  cases ht : Γ.get? x with
  | none => simp [Scopes.readFaults, ht] at hf
  | some t => cases t <;> first | rfl | exact absurd ht (hΓ x)

mutual

/-- **A statement without faults resolves exactly if it is in order.** -/
theorem Stmt.resolves_eq_inOrder : ∀ {s : Stmt} {Γ : Scopes}, Γ.Proper → ProperDecls s.decls →
    (s.check Γ).2 = [] → s.resolves Γ = s.inOrder Γ
  | .decl t xs, Γ, _, _, h => List.isEmpty_iff.2 h
  | .assign x e, Γ, hΓ, _, h => Scopes.resolves_of_checkAssign hΓ h
  | .expr e, Γ, hΓ, _, h => Expr.resolves_of_faults hΓ h
  | .write es, Γ, hΓ, _, h => by
    simp only [Stmt.resolves, Stmt.inOrder, List.all_eq_true]
    intro e he
    exact Expr.resolves_of_faults hΓ (List.flatMap_eq_nil_iff.1 h e he)
  | .read xs, Γ, hΓ, _, h => Stmt.resolves_read hΓ h
  | .ifElse c t e, Γ, hΓ, hd, h => by
    simp only [Stmt.decls, properDecls_append] at hd
    simp only [Stmt.check, t.check_fst, List.append_eq_nil_iff] at h
    obtain ⟨⟨hc, ht⟩, he⟩ := h
    simp only [Stmt.resolves, Stmt.inOrder, Expr.resolves_of_checkCondition hΓ hc, Bool.true_and,
      Stmt.resolves_eq_inOrder hΓ hd.1 ht,
      Stmt.resolvesOption_eq_inOrder (Stmt.after_proper hΓ hd.1) hd.2 he]
  | .whileLoop c b, Γ, hΓ, hd, h => by
    simp only [Stmt.check, List.append_eq_nil_iff] at h
    simp only [Stmt.resolves, Stmt.inOrder, Expr.resolves_of_checkCondition hΓ h.1, Bool.true_and,
      Stmt.resolves_eq_inOrder (s := b) hΓ hd h.2]
  | .forLoop init c step b, Γ, hΓ, hd, h => by
    -- the checker says nothing here about the body and the step: it saw them in the other order
    simp only [Stmt.decls, properDecls_append] at hd
    simp only [Stmt.check, ForInit.check_fst, List.append_eq_nil_iff] at h
    obtain ⟨⟨⟨hi, hc⟩, -⟩, -⟩ := h
    have hΓ₁ : (ForInit.after Γ.push init).Proper := ForInit.after_proper (Γ := Γ.push) hΓ hd.1.1
    have hcond : c.all (·.resolves (ForInit.after Γ.push init)) = true := by
      cases c with
      | none => rfl
      | some c => exact Expr.resolves_of_checkCondition hΓ₁ hc
    simp only [Stmt.resolves, Stmt.inOrder, ForInit.resolves_of_check (Γ := Γ.push) hΓ hi, hcond,
      Bool.true_and]
  | .block ss, Γ, hΓ, hd, h =>
    Stmt.resolvesAll_eq_inOrder (show Γ.push.Proper from hΓ) hd h

theorem Stmt.resolvesOption_eq_inOrder : ∀ {o : Option Stmt} {Γ : Scopes}, Γ.Proper →
    ProperDecls (Stmt.declsOption o) → (Stmt.checkOption Γ o).2 = [] →
    Stmt.resolvesOption Γ o = Stmt.inOrderOption Γ o
  | none, _, _, _, _ => rfl
  | some _, _, hΓ, hd, h => Stmt.resolves_eq_inOrder hΓ hd h

theorem Stmt.resolvesAll_eq_inOrder : ∀ {ss : List Stmt} {Γ : Scopes}, Γ.Proper →
    ProperDecls (Stmt.declsAll ss) → (Stmt.checkAll Γ ss).2 = [] →
    Stmt.resolvesAll Γ ss = Stmt.inOrderAll Γ ss
  | [], _, _, _, _ => rfl
  | s :: ss, Γ, hΓ, hd, h => by
    simp only [Stmt.declsAll, properDecls_append] at hd
    simp only [Stmt.checkAll_cons_snd, List.append_eq_nil_iff] at h
    simp only [Stmt.resolvesAll, Stmt.inOrderAll, Stmt.resolves_eq_inOrder hΓ hd.1 h.1,
      Stmt.resolvesAll_eq_inOrder (Stmt.after_proper hΓ hd.1) hd.2 h.2]

end

/-! ## Scopes that agree on names -/

namespace Scopes

variable {N : List String} {Γ Γ' : Scopes} {x : String} {t : Ty}

theorem declare_eq_error {f : Fault} : Γ.declare x t = .error f ↔
    Γ.declaresHere x = true ∧ f = .alreadyDeclared x := by
  unfold declare Scope.declare declaresHere
  cases Γ.current.get? x <;> simp [Except.map, eq_comm]

theorem declaresHere_declare (h : Γ.declare x t = .ok Γ') (y : String) :
    Γ'.declaresHere y = (decide (y = x) || Γ.declaresHere y) := by
  obtain ⟨hx, rfl⟩ := declare_eq_ok.1 h
  have hd : Γ.current.declare x t = .ok ⟨(x, t) :: Γ.current.bindings⟩ := by
    rw [Scope.declare_eq_ok]; exact ⟨hx, rfl⟩
  simp only [declaresHere, Scope.get?_declare hd y]
  by_cases hy : y = x <;> simp [hy]

/-- The scopes agree on names: on their types, and on whether the current scope declares
    them. -/
structure AgreeOn (N : List String) (Γ Γ' : Scopes) : Prop where
  get? : ∀ y ∈ N, Γ'.get? y = Γ.get? y
  here : ∀ y ∈ N, Γ'.declaresHere y = Γ.declaresHere y

namespace AgreeOn

theorem refl : AgreeOn N Γ Γ := ⟨fun _ _ => rfl, fun _ _ => rfl⟩

theorem trans {Γ'' : Scopes} (h : AgreeOn N Γ Γ') (h' : AgreeOn N Γ' Γ'') : AgreeOn N Γ Γ'' :=
  ⟨fun y hy => (h'.get? y hy).trans (h.get? y hy), fun y hy => (h'.here y hy).trans (h.here y hy)⟩

theorem push (h : AgreeOn N Γ Γ') : AgreeOn N Γ.push Γ'.push := ⟨h.get?, fun _ _ => rfl⟩

theorem checkDeclare (h : AgreeOn N Γ Γ') (hx : x ∈ N) :
    (Γ'.checkDeclare x t).2 = (Γ.checkDeclare x t).2 ∧
      AgreeOn N (Γ.checkDeclare x t).1 (Γ'.checkDeclare x t).1 := by
  unfold Scopes.checkDeclare
  cases hd : Γ.declare x t with
  | error f =>
    obtain ⟨hhere, rfl⟩ := declare_eq_error.1 hd
    have hd' : Γ'.declare x t = .error (.alreadyDeclared x) :=
      declare_eq_error.2 ⟨(h.here x hx).trans hhere, rfl⟩
    rw [hd']
    exact ⟨rfl, h⟩
  | ok Γ₁ =>
    cases hd' : Γ'.declare x t with
    | error f =>
      obtain ⟨hhere, -⟩ := declare_eq_error.1 hd'
      rw [h.here x hx] at hhere
      rw [declare_eq_error.2 ⟨hhere, rfl⟩] at hd
      cases hd
    | ok Γ₁' =>
      refine ⟨rfl, fun y hy => ?_, fun y hy => ?_⟩
      · rw [get?_declare hd' y, get?_declare hd y, h.get? y hy]
      · rw [declaresHere_declare hd' y, declaresHere_declare hd y, h.here y hy]

theorem checkDeclareAll : ∀ {xs : List String} {Γ Γ' : Scopes}, AgreeOn N Γ Γ' → xs ⊆ N →
    (Γ'.checkDeclareAll t xs).2 = (Γ.checkDeclareAll t xs).2 ∧
      AgreeOn N (Γ.checkDeclareAll t xs).1 (Γ'.checkDeclareAll t xs).1
  | [], _, _, h, _ => ⟨rfl, h⟩
  | x :: xs, Γ, Γ', h, hxs => by
    obtain ⟨hx, hxs⟩ := List.cons_subset.1 hxs
    obtain ⟨hfaults, h₁⟩ := h.checkDeclare (t := t) hx
    obtain ⟨hrest, h₂⟩ := checkDeclareAll h₁ hxs
    exact ⟨by simp only [Scopes.checkDeclareAll, hfaults, hrest], h₂⟩

end AgreeOn

/-- A declaration leaves the other names alone. -/
theorem agreeOn_checkDeclare (hx : x ∉ N) : Γ.AgreeOn N (Γ.checkDeclare x t).1 := by
  unfold checkDeclare
  cases hd : Γ.declare x t with
  | error f => exact .refl
  | ok Γ₁ =>
    have hne {y : String} (hy : y ∈ N) : y ≠ x := fun he => hx (he ▸ hy)
    refine ⟨fun y hy => ?_, fun y hy => ?_⟩
    · rw [get?_declare hd y, if_neg (hne hy)]
    · simp [declaresHere_declare hd y, hne hy]

theorem agreeOn_checkDeclareAll : ∀ {xs : List String} {Γ : Scopes}, (∀ x ∈ xs, x ∉ N) →
    Γ.AgreeOn N (Γ.checkDeclareAll t xs).1
  | [], _, _ => .refl
  | _ :: _, _, h =>
    (agreeOn_checkDeclare (List.forall_mem_cons.1 h).1).trans
      (agreeOn_checkDeclareAll (List.forall_mem_cons.1 h).2)

end Scopes

/-- The checker looks up the variables of an expression only. -/
theorem Expr.check_congr {Γ Γ' : Scopes} {e : Expr} (h : ∀ x ∈ e.names, Γ'.get? x = Γ.get? x) :
    e.check Γ' = e.check Γ := by
  induction e with
  | lit => rfl
  | var x => simp only [check, h x (by simp [names])]
  | un op e ih => simp only [check, ih h]
  | bin op l r ihl ihr =>
    rw [names, List.forall_mem_append] at h
    simp only [check, ihl h.1, ihr h.2]
  | cond c t e ihc iht ihe =>
    rw [names, List.forall_mem_append, List.forall_mem_append] at h
    simp only [check, ihc h.1.1, iht h.1.2, ihe h.2]
  | paren e ih => exact ih h

section

variable {N : List String}

theorem Scopes.AgreeOn.check {Γ Γ' : Scopes} (h : Γ.AgreeOn N Γ') {e : Expr} (he : e.names ⊆ N) :
    e.check Γ' = e.check Γ := Expr.check_congr fun x hx => h.get? x (he hx)

theorem Scopes.AgreeOn.checkAssign {Γ Γ' : Scopes} (h : Γ.AgreeOn N Γ') {x : String} {e : Expr}
    (hx : x :: e.names ⊆ N) : Γ'.checkAssign x e = Γ.checkAssign x e := by
  obtain ⟨hx, he⟩ := List.cons_subset.1 hx
  simp only [Scopes.checkAssign, h.check he, h.get? x hx]

theorem ForInit.check_congr {Γ Γ' : Scopes} (h : Γ.AgreeOn N Γ') {init : Option ForInit}
    (hi : ForInit.names init ⊆ N) :
    (ForInit.checkOption Γ' init).2 = (ForInit.checkOption Γ init).2 ∧
      (ForInit.after Γ init).AgreeOn N (ForInit.after Γ' init) := by
  rcases init with _ | ⟨t, x, e⟩ | ⟨x, e⟩
  · exact ⟨rfl, h⟩
  · obtain ⟨hx, he⟩ := List.cons_subset.1 hi
    obtain ⟨hfaults, h₁⟩ := h.checkDeclare (t := t) hx
    exact ⟨by simp only [checkOption, check, h.check he, hfaults], h₁⟩
  · exact ⟨h.checkAssign hi, h⟩

mutual

/-- **The checker finds the same faults in scopes that agree on the names of a
    statement.** -/
theorem Stmt.check_congr : ∀ {s : Stmt} {Γ Γ' : Scopes}, Γ.AgreeOn N Γ' → s.names ⊆ N →
    (s.check Γ').2 = (s.check Γ).2 ∧ (s.after Γ).AgreeOn N (s.after Γ')
  | .decl t xs, Γ, Γ', h, hs => h.checkDeclareAll hs
  | .assign x e, Γ, Γ', h, hs => ⟨h.checkAssign hs, h⟩
  | .expr e, Γ, Γ', h, hs => ⟨by simp only [Stmt.check, Expr.faults, h.check hs], h⟩
  | .write es, Γ, Γ', h, hs => by
    refine ⟨List.flatMap_congr fun e he => ?_, h⟩
    have hnames : e.names ⊆ N := fun x hx => hs (List.mem_flatMap.2 ⟨e, he, hx⟩)
    simp only [Expr.faults, h.check hnames]
  | .read xs, Γ, Γ', h, hs => by
    refine ⟨List.flatMap_congr fun x hx => ?_, h⟩
    simp only [Scopes.readFaults, h.get? x (hs hx)]
  | .ifElse c t e, Γ, Γ', h, hs => by
    simp only [Stmt.names, List.append_subset] at hs
    obtain ⟨ht, h₁⟩ := Stmt.check_congr h hs.1.2
    obtain ⟨he, h₂⟩ := Stmt.checkOption_congr h₁ hs.2
    refine ⟨?_, h₂⟩
    simp only [Stmt.check, Stmt.check_fst, Expr.checkCondition, h.check hs.1.1, ht, he]
  | .whileLoop c b, Γ, Γ', h, hs => by
    simp only [Stmt.names, List.append_subset] at hs
    obtain ⟨hb, h₁⟩ := Stmt.check_congr h hs.2
    exact ⟨by simp only [Stmt.check, Expr.checkCondition, h.check hs.1, hb], h₁⟩
  | .forLoop init c step b, Γ, Γ', h, hs => by
    simp only [Stmt.names, List.append_subset] at hs
    obtain ⟨⟨⟨hinit, hcond⟩, hstep⟩, hbody⟩ := hs
    obtain ⟨hi, h₁⟩ := ForInit.check_congr h.push hinit
    obtain ⟨hs, h₂⟩ := Stmt.checkOption_congr h₁ hstep
    obtain ⟨hb, -⟩ := Stmt.check_congr h₂ hbody
    refine ⟨?_, h⟩
    have hc : c.map (·.checkCondition (ForInit.after Γ'.push init) .forLoop) =
        c.map (·.checkCondition (ForInit.after Γ.push init) .forLoop) := by
      cases c with
      | none => rfl
      | some c =>
        have hnames : c.names ⊆ N := by simpa using hcond
        simp only [Option.map_some, Expr.checkCondition, h₁.check hnames]
    simp only [Stmt.check, ForInit.check_fst, Stmt.checkOption_fst, hi, hc, hs, hb]
  | .block ss, Γ, Γ', h, hs => ⟨Stmt.checkAll_congr h.push hs, h⟩

theorem Stmt.checkOption_congr : ∀ {o : Option Stmt} {Γ Γ' : Scopes}, Γ.AgreeOn N Γ' →
    Stmt.namesOption o ⊆ N → (Stmt.checkOption Γ' o).2 = (Stmt.checkOption Γ o).2 ∧
      (Stmt.afterOption Γ o).AgreeOn N (Stmt.afterOption Γ' o)
  | none, _, _, h, _ => ⟨rfl, h⟩
  | some _, _, _, h, hs => Stmt.check_congr h hs

theorem Stmt.checkAll_congr : ∀ {ss : List Stmt} {Γ Γ' : Scopes}, Γ.AgreeOn N Γ' →
    Stmt.namesAll ss ⊆ N → (Stmt.checkAll Γ' ss).2 = (Stmt.checkAll Γ ss).2
  | [], _, _, _, _ => rfl
  | s :: ss, Γ, Γ', h, hs => by
    simp only [Stmt.namesAll, List.append_subset] at hs
    obtain ⟨hs₁, h₁⟩ := Stmt.check_congr h hs.1
    simp only [Stmt.checkAll_cons_snd, hs₁, Stmt.checkAll_congr h₁ hs.2]

end

end

/-! ## Loops whose parts are separate -/

mutual

/-- The names that a statement declares into the scope that it stands in. -/
def Stmt.locals : Stmt → List String
  | .decl _ xs => xs
  | .ifElse _ t e => t.locals ++ Stmt.localsOption e
  | .whileLoop _ b => b.locals
  | .assign _ _ | .expr _ | .write _ | .read _ | .forLoop _ _ _ _ | .block _ => []

/-- The names that a statement declares, if there is one. -/
def Stmt.localsOption : Option Stmt → List String
  | none => []
  | some s => s.locals

end

mutual

/-- In each `for` loop, the body mentions no name that the step declares into the scope
    of the loop, and the step none that the body declares. -/
def Stmt.separate : Stmt → Bool
  | .ifElse _ t e => t.separate && Stmt.separateOption e
  | .whileLoop _ b => b.separate
  | .forLoop _ _ step b =>
    (Stmt.localsOption step).all (· ∉ b.names) && b.locals.all (· ∉ Stmt.namesOption step) &&
      b.separate && Stmt.separateOption step
  | .block ss => Stmt.separateAll ss
  | .decl _ _ | .assign _ _ | .expr _ | .write _ | .read _ => true

/-- A statement is separate, if there is one. -/
def Stmt.separateOption : Option Stmt → Bool
  | none => true
  | some s => s.separate

/-- Statements are separate. -/
def Stmt.separateAll : List Stmt → Bool
  | [] => true
  | s :: ss => s.separate && Stmt.separateAll ss

end

mutual

/-- A statement leaves the names alone that it does not declare. -/
theorem Stmt.agreeOn_after {N : List String} : ∀ {s : Stmt} {Γ : Scopes},
    (∀ x ∈ s.locals, x ∉ N) → Γ.AgreeOn N (s.after Γ)
  | .decl _ _, _, h => Scopes.agreeOn_checkDeclareAll h
  | .ifElse _ t e, _, h => by
    rw [Stmt.locals, List.forall_mem_append] at h
    exact (Stmt.agreeOn_after h.1).trans (Stmt.agreeOn_afterOption h.2)
  | .whileLoop _ b, _, h => Stmt.agreeOn_after (s := b) h
  | .assign _ _, _, _ | .expr _, _, _ | .write _, _, _ | .read _, _, _ | .forLoop _ _ _ _, _, _
  | .block _, _, _ => .refl

theorem Stmt.agreeOn_afterOption {N : List String} : ∀ {o : Option Stmt} {Γ : Scopes},
    (∀ x ∈ Stmt.localsOption o, x ∉ N) → Γ.AgreeOn N (Stmt.afterOption Γ o)
  | none, _, _ => .refl
  | some _, _, h => Stmt.agreeOn_after h

end

mutual

theorem Stmt.inOrder_of_separate : ∀ {s : Stmt} {Γ : Scopes}, Γ.Proper → ProperDecls s.decls →
    (s.check Γ).2 = [] → s.separate → s.inOrder Γ = true
  | .ifElse c t e, Γ, hΓ, hd, h, ht => by
    simp only [Stmt.decls, properDecls_append] at hd
    simp only [Stmt.check, t.check_fst, List.append_eq_nil_iff] at h
    simp only [Stmt.separate, Bool.and_eq_true] at ht
    simp only [Stmt.inOrder, Bool.and_eq_true]
    exact ⟨Stmt.inOrder_of_separate hΓ hd.1 h.1.2 ht.1,
      Stmt.inOrderOption_of_separate (Stmt.after_proper hΓ hd.1) hd.2 h.2 ht.2⟩
  | .whileLoop c b, Γ, hΓ, hd, h, ht => by
    simp only [Stmt.check, List.append_eq_nil_iff] at h
    exact Stmt.inOrder_of_separate (s := b) hΓ hd h.2 ht
  | .forLoop init c step b, Γ, hΓ, hd, h, ht => by
    simp only [Stmt.decls, properDecls_append] at hd
    simp only [Stmt.separate, Bool.and_eq_true, List.all_eq_true, decide_eq_true_eq] at ht
    obtain ⟨⟨⟨hstep, hbody⟩, hb⟩, hs⟩ := ht
    simp only [Stmt.check, ForInit.check_fst, Stmt.checkOption_fst, List.append_eq_nil_iff] at h
    obtain ⟨⟨-, hcs⟩, hcb⟩ := h
    have hΓ₁ : (ForInit.after Γ.push init).Proper := ForInit.after_proper (Γ := Γ.push) hΓ hd.1.1
    have hΓ₂ := Stmt.after_proper hΓ₁ hd.2
    -- each part has no faults either where the generator comes to it
    rw [(Stmt.check_congr (Stmt.agreeOn_afterOption hstep) (List.Subset.refl _)).1] at hcb
    rw [← (Stmt.checkOption_congr (Stmt.agreeOn_after hbody) (List.Subset.refl _)).1] at hcs
    simp only [Stmt.inOrder, Bool.and_eq_true, Stmt.resolves_eq_inOrder hΓ₁ hd.2 hcb,
      Stmt.resolvesOption_eq_inOrder hΓ₂ hd.1.2 hcs]
    exact ⟨Stmt.inOrder_of_separate hΓ₁ hd.2 hcb hb,
      Stmt.inOrderOption_of_separate hΓ₂ hd.1.2 hcs hs⟩
  | .block ss, Γ, hΓ, hd, h, ht => Stmt.inOrderAll_of_separate (show Γ.push.Proper from hΓ) hd h ht
  | .decl _ _, _, _, _, _, _ | .assign _ _, _, _, _, _, _ | .expr _, _, _, _, _, _
  | .write _, _, _, _, _, _ | .read _, _, _, _, _, _ => rfl

theorem Stmt.inOrderOption_of_separate : ∀ {o : Option Stmt} {Γ : Scopes}, Γ.Proper →
    ProperDecls (Stmt.declsOption o) → (Stmt.checkOption Γ o).2 = [] → Stmt.separateOption o →
    Stmt.inOrderOption Γ o = true
  | none, _, _, _, _, _ => rfl
  | some _, _, hΓ, hd, h, ht => Stmt.inOrder_of_separate hΓ hd h ht

theorem Stmt.inOrderAll_of_separate : ∀ {ss : List Stmt} {Γ : Scopes}, Γ.Proper →
    ProperDecls (Stmt.declsAll ss) → (Stmt.checkAll Γ ss).2 = [] → Stmt.separateAll ss →
    Stmt.inOrderAll Γ ss = true
  | [], _, _, _, _, _ => rfl
  | s :: ss, Γ, hΓ, hd, h, ht => by
    simp only [Stmt.declsAll, properDecls_append] at hd
    simp only [Stmt.checkAll_cons_snd, List.append_eq_nil_iff] at h
    simp only [Stmt.separateAll, Bool.and_eq_true] at ht
    simp only [Stmt.inOrderAll, Bool.and_eq_true]
    exact ⟨Stmt.inOrder_of_separate hΓ hd.1 h.1 ht.1,
      Stmt.inOrderAll_of_separate (Stmt.after_proper hΓ hd.1) hd.2 h.2 ht.2⟩

end

/-- **A program without faults and without declarations of the type `error` generates
    exactly if it is in order.**  It is if neither the body nor the step of a `for` loop
    mentions a name that the other one declares into the scope of the loop. -/
theorem Program.generates_iff_inOrder {p : Program} (hd : ProperDecls (Stmt.declsAll p))
    (hc : p.check.2 = []) :
    ((∃ code, p.gen = .ok code) ↔ Stmt.inOrderAll .empty p = true) ∧
      (Stmt.separateAll p = true → ∃ code, p.gen = .ok code) := by
  rw [Program.gen_isOk_iff, Stmt.resolvesAll_eq_inOrder Scopes.proper_empty hd hc]
  exact ⟨Iff.rfl, Stmt.inOrderAll_of_separate Scopes.proper_empty hd hc⟩

/-- A loop over `i` whose body declares `k` into the scope of the loop, in front of
    a step that does not mention it. -/
theorem Program.generates_for_body_decl :
    let p : Program := [.forLoop (some (.decl .int "i" (.lit .int "0")))
      (some (.bin .less (.var "i") (.lit .int "2")))
      (some (.assign "i" (.bin .add (.var "i") (.lit .int "1")))) (.decl .float ["k"])]
    ProperDecls (Stmt.declsAll p) ∧ p.check.2 = [] ∧ Stmt.separateAll p = true ∧
      ∃ code, p.gen = .ok code :=
  ⟨by decide, by decide, by decide,
    (Program.generates_iff_inOrder (by decide) (by decide)).2 (by decide)⟩

/-- A step may declare what the body assigns: the checker has seen the declaration
    then, and the generator has not. -/
theorem Program.not_generates_for_step_decl :
    let p : Program := [.forLoop none none (some (.decl .int ["x"])) (.assign "x" (.lit .int "1"))]
    ProperDecls (Stmt.declsAll p) ∧ p.check.2 = [] ∧ p.gen = .error (.notDeclared "x") :=
  ⟨by decide, by decide, rfl⟩

end StackLang
