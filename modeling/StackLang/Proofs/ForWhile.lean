/-
  A `for` loop is a `while` loop in a block.

  The body and the step of a `for` loop declare into the scope of the loop.  In the
  `while` loop that stands for it they have a block of their own, inside the scope of the
  loop variable.

  * the code of an expression depends on the types of its variables only
    (`Expr.Emits.congr`);
  * `Scopes.Agrees Γ Γ'`: a name has the same type in both, and if it is new in the
    current scope of `Γ`, so it is in that of `Γ'`.  What has code in `Γ` has the same code
    in `Γ'` (`Stmt.EmitsAll.agrees`);
  * `Stmt.asWhile`: the block that stands for a `for` loop.  From every state of the
    generator it has the same code (`Stmt.for_eq_while`).
-/
import StackLang.Proofs.Rename

namespace StackLang

variable {Γ Γ' Γ₁ : Scopes} {n n' : Nat} {c : List Instr}

/-! ## Scopes with the same types -/

/-- The type of an expression depends on those of its variables. -/
theorem Expr.typeOf_congr {e : Expr} (h : ∀ z ∈ e.names, Γ'.get? z = Γ.get? z) :
    e.typeOf Γ' = e.typeOf Γ := by
  induction e with
  | lit => rfl
  | var z => simp only [typeOf, h z (List.mem_singleton_self z)]
  | un op e ih => simp only [typeOf, ih h]
  | bin op l r ihl ihr =>
    simp only [names, List.forall_mem_append] at h
    simp only [typeOf, ihl h.1, ihr h.2]
  | cond c t e _ iht ihe =>
    simp only [names, List.forall_mem_append] at h
    simp only [typeOf, iht h.1.2, ihe h.2]
  | paren e ih => exact ih h

/-- **The code of an expression depends on the types of its variables.** -/
theorem Expr.Emits.congr {e : Expr} (he : e.Emits Γ n c n')
    (h : ∀ z ∈ e.names, Γ'.get? z = Γ.get? z) : e.Emits Γ' n c n' := by
  induction he with
  | lit => exact .lit
  | var => exact .var
  | @minus _ e _ _ _ ih =>
    rw [← typeOf_congr (e := e) h]
    exact .minus (ih h)
  | not _ ih => exact .not (ih h)
  | plain hop _ _ ihl ihr =>
    simp only [names, List.forall_mem_append] at h
    exact .plain hop (ihl h.1) (ihr h.2)
  | numeric hop _ _ ht ihl ihr =>
    simp only [names, List.forall_mem_append] at h
    rw [← typeOf_congr h.1, ← typeOf_congr h.2] at ht ⊢
    exact .numeric hop (ihl h.1) (ihr h.2) ht
  | equality hop _ _ ht ihl ihr =>
    simp only [names, List.forall_mem_append] at h
    rw [← typeOf_congr h.1, ← typeOf_congr h.2] at ht ⊢
    exact .equality hop (ihl h.1) (ihr h.2) ht
  | cond _ _ _ ihc iht ihe =>
    simp only [names, List.forall_mem_append] at h
    rw [← typeOf_congr h.1.2, ← typeOf_congr h.2]
    exact .cond (ihc h.1.1) (iht h.1.2) (ihe h.2)
  | paren _ ih => exact .paren (ih h)

theorem Expr.EmitsStore.congr {e : Expr} {x : String} {t : Ty} (he : e.EmitsStore Γ x t n c n')
    (h : ∀ z ∈ e.names, Γ'.get? z = Γ.get? z) : e.EmitsStore Γ' x t n c n' := by
  obtain ⟨he⟩ := he
  rw [← Expr.typeOf_congr h]
  exact .store (he.congr h)

/-- The scopes give every name the same type, and the current one of the second declares
    no more names than that of the first. -/
structure Scopes.Agrees (Γ Γ' : Scopes) : Prop where
  get? : ∀ x, Γ'.get? x = Γ.get? x
  here : ∀ x, Γ.current.get? x = none → Γ'.current.get? x = none

namespace Scopes.Agrees

/-- A scope that is opened has no names yet. -/
theorem self_push (Γ : Scopes) : Γ.Agrees Γ.push := ⟨fun _ => rfl, fun _ _ => rfl⟩

theorem push (h : Γ.Agrees Γ') : Γ.push.Agrees Γ'.push := ⟨h.get?, fun _ _ => rfl⟩

theorem declare (h : Γ.Agrees Γ') {x : String} {t : Ty} (hd : Γ.declare x t = .ok Γ₁) :
    ∃ Γ₁', Γ'.declare x t = .ok Γ₁' ∧ Γ₁.Agrees Γ₁' := by
  have hd' := Scopes.declare_eq_ok (t := t).2 ⟨h.here x (Scopes.declare_eq_ok.1 hd).1, rfl⟩
  refine ⟨_, hd', fun y => ?_, fun y hy => ?_⟩
  · rw [Scopes.get?_declare hd', Scopes.get?_declare hd, h.get?]
  · rw [Scopes.current_declare hd] at hy
    rw [Scopes.current_declare hd']
    split at hy
    · cases hy
    · next hyx => rw [if_neg hyx]; exact h.here y hy

theorem checkDeclareAll {t : Ty} : ∀ {xs : List String} {Γ Γ' Γ₁ : Scopes}, Γ.Agrees Γ' →
    Γ.checkDeclareAll t xs = (Γ₁, []) →
      ∃ Γ₁', Γ'.checkDeclareAll t xs = (Γ₁', []) ∧ Γ₁.Agrees Γ₁'
  | [], Γ, Γ', Γ₁, h, hc => by
    obtain rfl : Γ = Γ₁ := (Prod.mk.inj hc).1
    exact ⟨Γ', rfl, h⟩
  | x :: xs, Γ, Γ', Γ₁, h, hc => by
    obtain ⟨Γ₂, hd, hxs⟩ := Scopes.checkDeclareAll_cons.1 hc
    obtain ⟨Γ₂', hd', h₂⟩ := h.declare hd
    obtain ⟨Γ₁', hc', h₁⟩ := checkDeclareAll h₂ hxs
    exact ⟨Γ₁', Scopes.checkDeclareAll_cons.2 ⟨Γ₂', hd', hc'⟩, h₁⟩

end Scopes.Agrees

/-! ## Code in scopes that agree -/

theorem Expr.Emits.agrees {e : Expr} (he : e.Emits Γ n c n') (h : Γ.Agrees Γ') :
    e.Emits Γ' n c n' := he.congr fun z _ => h.get? z

theorem Expr.EmitsAll.agrees {es : List Expr} (hes : Expr.EmitsAll Γ n es c n')
    (h : Γ.Agrees Γ') : Expr.EmitsAll Γ' n es c n' := by
  induction hes with
  | nil => exact .nil
  | cons he _ ih => exact .cons (he.agrees h) ih

theorem Expr.EmitsStore.agrees {e : Expr} {x : String} {t : Ty} (he : e.EmitsStore Γ x t n c n')
    (h : Γ.Agrees Γ') : e.EmitsStore Γ' x t n c n' := he.congr fun z _ => h.get? z

theorem Expr.EmitsTest.agrees {o : Option Expr} {l : String} (ho : Expr.EmitsTest Γ l n o c n')
    (h : Γ.Agrees Γ') : Expr.EmitsTest Γ' l n o c n' := by
  cases ho with
  | none => exact .none
  | some he => exact .some (he.agrees h)

theorem ForInit.Emits.agrees {init : Option ForInit} (hi : ForInit.Emits Γ n init c Γ₁ n')
    (h : Γ.Agrees Γ') : ∃ Γ₁', ForInit.Emits Γ' n init c Γ₁' n' ∧ Γ₁.Agrees Γ₁' := by
  cases hi with
  | none => exact ⟨Γ', .none, h⟩
  | decl he hd =>
    obtain ⟨Γ₁', hd', h₁⟩ := h.declare hd
    exact ⟨Γ₁', .decl (he.agrees h) hd', h₁⟩
  | assign hx he => exact ⟨Γ', .assign ((h.get? _).trans hx) (he.agrees h), h⟩

/-- **Statements have the same code in scopes that agree**, and the scopes behind them
    agree again. -/
theorem Stmt.EmitsAll.agrees {ss : List Stmt} (hss : Stmt.EmitsAll Γ n ss c Γ₁ n') :
    ∀ {Γ'}, Γ.Agrees Γ' → ∃ Γ₁', Stmt.EmitsAll Γ' n ss c Γ₁' n' ∧ Γ₁.Agrees Γ₁' := by
  induction hss with
  | nil => exact fun h => ⟨_, .nil, h⟩
  | cons _ _ ih₁ ih₂ =>
    intro Γ' h
    obtain ⟨Γ₁', hs, h₁⟩ := ih₁ h
    obtain ⟨Γ₂', hss, h₂⟩ := ih₂ h₁
    exact ⟨Γ₂', .cons hs hss, h₂⟩
  | decl hd =>
    intro Γ' h
    obtain ⟨Γ₁', hd', h₁⟩ := h.checkDeclareAll hd
    exact ⟨Γ₁', .decl hd', h₁⟩
  | assign hx he => exact fun h => ⟨_, .assign ((h.get? _).trans hx) (he.agrees h), h⟩
  | expr he => exact fun h => ⟨_, .expr (he.agrees h), h⟩
  | write hes => exact fun h => ⟨_, .write (hes.agrees h), h⟩
  | readNil => exact fun h => ⟨_, .readNil, h⟩
  | readCons hx ht _ ih =>
    intro Γ' h
    obtain ⟨Γ₁', hxs, -⟩ := ih h
    obtain rfl : Γ' = Γ₁' := hxs.after_singleton
    exact ⟨Γ', .readCons ((h.get? _).trans hx) ht hxs, h⟩
  | ifElse hc _ _ iht ihe =>
    intro Γ' h
    obtain ⟨Γ₁', ht, h₁⟩ := iht h
    obtain ⟨Γ₂', he, h₂⟩ := ihe h₁
    exact ⟨Γ₂', .ifElse (hc.agrees h) ht he, h₂⟩
  | whileLoop hc _ ih =>
    intro Γ' h
    obtain ⟨Γ₁', hb, h₁⟩ := ih h
    exact ⟨Γ₁', .whileLoop (hc.agrees h) hb, h₁⟩
  | forLoop hi hc _ _ ihb ihs =>
    intro Γ' h
    obtain ⟨Γ₁', hi', h₁⟩ := hi.agrees h.push
    obtain ⟨Γ₂', hb, h₂⟩ := ihb h₁
    obtain ⟨Γ₃', hs, -⟩ := ihs h₂
    exact ⟨Γ', .forLoop hi' (hc.agrees h₁) hb hs, h⟩
  | block _ ih =>
    intro Γ' h
    obtain ⟨Γ₁', hb, -⟩ := ih h.push
    exact ⟨Γ', .block hb, h⟩

/-! ## Loops -/

/-- The first part of a `for` loop, as statements in front of the loop. -/
def ForInit.stmts : Option ForInit → List Stmt
  | none => []
  | some (.decl t x e) => [.decl t [x], .assign x e]
  | some (.assign x e) => [.assign x e]

/-- The `while` loop in a block that stands for a `for` loop with a condition. -/
def Stmt.asWhile (init : Option ForInit) (c : Expr) (step : Option Stmt) (b : Stmt) : Stmt :=
  .block (ForInit.stmts init ++ [.whileLoop c (.block (b :: step.toList))])

/-- The value that a `for` loop declares its variable with does not mention the
    variable. -/
def ForInit.apart : Option ForInit → Bool
  | some (.decl _ x e) => !e.names.contains x
  | some (.assign _ _) | none => true

/-- The first part of a `for` loop has the same code as the statements for it.  Its
    variable is declared in front of its value there, but the value does not mention it. -/
theorem ForInit.Emits.stmts_append {init : Option ForInit} {ss : List Stmt} {c' : List Instr}
    {Γ₂ : Scopes} {n₂ : Nat} (hi : ForInit.Emits Γ n init c Γ₁ n')
    (ha : ForInit.apart init = true) (hss : Stmt.EmitsAll Γ₁ n' ss c' Γ₂ n₂) :
    Stmt.EmitsAll Γ n (ForInit.stmts init ++ ss) (c ++ c') Γ₂ n₂ := by
  rcases init with _ | ⟨t, x, e⟩ | ⟨x, e⟩
  · cases hi with
    | none => exact hss
  · cases hi with
    | decl he hd =>
      have hx : x ∉ e.names := by simpa [ForInit.apart] using ha
      have hget (z : String) (hz : z ∈ e.names) : Γ₁.get? z = Γ.get? z := by
        rw [Scopes.get?_declare hd, if_neg (ne_of_mem_of_not_mem hz hx)]
      have hself : Γ₁.get? x = some t := by rw [Scopes.get?_declare hd, if_pos rfl]
      have hdecl : Stmt.EmitsAll Γ n [.decl t [x]] [] Γ₁ n :=
        .decl (Scopes.checkDeclareAll_cons.2 ⟨Γ₁, hd, rfl⟩)
      rw [← List.nil_append (c ++ c')]
      exact .cons hdecl (.cons (.assign hself (he.congr hget)) hss)
  · cases hi with
    | assign hx he => exact .cons (.assign hx he) hss

/-- The parts of the code of a `for` loop with a condition. -/
theorem Stmt.EmitsAll.of_forLoop {init : Option ForInit} {e : Expr} {step : Option Stmt}
    {b : Stmt} (h : Stmt.EmitsAll Γ n [.forLoop init (some e) step b] c Γ' n') :
    ∃ ci Γ₁ n₁ cc n₂ cb Γ₂ n₃ cs Γ₃, ForInit.Emits Γ.push n init ci Γ₁ n₁ ∧
      e.Emits Γ₁ (n₁ + 2) cc n₂ ∧ Stmt.EmitsAll Γ₁ n₂ [b] cb Γ₂ n₃ ∧
      Stmt.EmitsAll Γ₂ n₃ step.toList cs Γ₃ n' ∧ Γ' = Γ ∧
      c = ci ++ .named .label (labelName n₁) :: (cc ++ .named .fjmp (labelName (n₁ + 1)) ::
        (cb ++ cs ++ [.named .jmp (labelName n₁), .named .label (labelName (n₁ + 1))])) := by
  generalize hfor : [Stmt.forLoop init (some e) step b] = ss at h
  induction h with
  | forLoop hi hc hb hs =>
    cases hfor
    obtain - | hc := hc
    exact ⟨_, _, _, _, _, _, _, _, _, _, hi, hc, hb, hs, rfl, by simp⟩
  | cons _ h₂ ih₁ _ =>
    cases hfor
    cases h₂
    obtain ⟨_, _, _, _, _, _, _, _, _, _, hi, hc, hb, hs, rfl, rfl⟩ := ih₁ rfl
    exact ⟨_, _, _, _, _, _, _, _, _, _, hi, hc, hb, hs, rfl, by simp⟩
  | _ => cases hfor

/-- **A `for` loop is a `while` loop.**  If a `for` loop with a condition generates from
    some state, then the block with the loop variable and a `while` loop, whose body is the
    block of the body and the step, emits the same code from that state and leaves the
    same state behind. -/
theorem Stmt.for_eq_while {init : Option ForInit} {c : Expr} {step : Option Stmt} {b : Stmt}
    {g : GenState} (ha : ForInit.apart init = true)
    (h : ((Stmt.forLoop init (some c) step b).gen g).result = .ok ()) :
    (Stmt.asWhile init c step b).gen g = (Stmt.forLoop init (some c) step b).gen g := by
  rcases hfor : (Stmt.forLoop init (some c) step b).gen g with ⟨code, ⟨Γ', n'⟩, r⟩
  obtain rfl : r = .ok () := by rw [← h, hfor]
  obtain ⟨he, -⟩ := Stmt.emitsAll_of_gen hfor
  obtain ⟨_, Γ₁, _, _, _, _, _, _, _, _, hi, hc, hb, hs, rfl, rfl⟩ := he.of_forLoop
  -- the block of body and step opens a scope where the `for` loop has none
  obtain ⟨Γ₂', hb', h₂⟩ := hb.agrees (.self_push Γ₁)
  obtain ⟨Γ₃', hs', -⟩ := hs.agrees h₂
  have hloop := Stmt.EmitsAll.whileLoop hc (.block (.cons hb' hs'))
  have hgen := Stmt.genAll_of_emitsAll (.block (hi.stmts_append ha hloop))
  exact Stmt.genAll_singleton.1 hgen

/-- The body declares a variable that the step uses, and the loop variable hides one that
    its first value does not mention. -/
theorem Stmt.for_eq_while_shared :
    let init : Option ForInit :=
      some (.decl .float "x" (.cond (.var "b") (.lit .int "0") (.lit .float "0.5")))
    let c : Expr := .bin .less (.var "x") (.lit .int "2")
    let step : Stmt := .assign "y" (.bin .add (.var "y") (.var "x"))
    let b : Stmt := .decl .float ["y"]
    let g : GenState := ⟨⟨⟨[("b", .bool), ("x", .string)]⟩, []⟩, 3⟩
    ForInit.apart init = true ∧ ((Stmt.forLoop init (some c) (some step) b).gen g).result = .ok () ∧
      (Stmt.asWhile init c (some step) b).gen g = (Stmt.forLoop init (some c) (some step) b).gen g :=
  ⟨by decide, rfl, Stmt.for_eq_while (by decide) rfl⟩

end StackLang
