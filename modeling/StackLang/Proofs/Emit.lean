/-
  The code of expressions and statements, as a relation.

  * `Expr.Emits Γ n e c n'`: in the scopes `Γ`, with `n` labels minted before,
    the code of `e` is `c`, and `n'` labels are minted behind it;
  * `Stmt.EmitsAll` is the same for a list of statements, which may also change
    the scopes.  A body is a list of one statement, and a missing one the empty
    list, so that one induction covers all bodies;
  * a generator that succeeds emits code in this sense (`Expr.emits_of_gen`,
    `Stmt.emitsAll_of_genAll`), and generates nothing else.
-/
import StackLang.Build

namespace StackLang

/-! ## Runs of generators that succeed -/

/-- The code of a conversion. -/
def Ty.conversion (given wanted : Ty) : List Instr :=
  if given = .int ∧ wanted = .float then [.plain .itof] else []

namespace Gen

variable {α β : Type} {g g' : GenState} {c : List Instr} {b : β}

/-- A generator that succeeds leaves its code in front of that of the next one. -/
theorem seq_eq_ok {x : Gen Unit} {f : Unit → Gen β} :
    (x >>= f) g = ⟨c, g', .ok b⟩ ↔
      ∃ c₁ g₁ c₂, x g = ⟨c₁, g₁, .ok ()⟩ ∧ f () g₁ = ⟨c₂, g', .ok b⟩ ∧ c = c₁ ++ c₂ := by
  constructor
  · intro h
    rcases hx : x g with ⟨c₁, g₁, e | a⟩
    · rw [bind_of_error (by rw [hx])] at h; simp at h
    · rw [bind_of_ok (a := a) (by rw [hx]), hx] at h
      rcases hf : f a g₁ with ⟨c₂, g₂, r⟩
      simp only [hf, Emission.mk.injEq] at h
      obtain ⟨rfl, rfl, rfl⟩ := h
      exact ⟨c₁, g₁, c₂, rfl, hf, rfl⟩
  · rintro ⟨c₁, g₁, c₂, hx, hf, rfl⟩
    rw [bind_of_ok (a := ()) (by rw [hx]), hx]
    simp only [hf]

theorem pure_eq_ok {a b : α} : (pure a : Gen α) g = ⟨c, g', .ok b⟩ ↔ c = [] ∧ g' = g ∧ b = a := by
  simp [pure_apply, eq_comm]

theorem emit_eq_ok {i : Instr} {u : Unit} : emit i g = ⟨c, g', .ok u⟩ ↔ c = [i] ∧ g' = g := by
  simp [emit, eq_comm]

theorem ite_emit_eq_ok {P : Prop} [Decidable P] {i : Instr} {u : Unit} :
    (if P then emit i else pure ()) g = ⟨c, g', .ok u⟩ ↔
      c = (if P then [i] else []) ∧ g' = g := by
  split
  · exact emit_eq_ok
  · simp [pure_apply, eq_comm]

theorem convert_eq_ok {given wanted : Ty} {u : Unit} :
    convert given wanted g = ⟨c, g', .ok u⟩ ↔ c = given.conversion wanted ∧ g' = g :=
  ite_emit_eq_ok

theorem declare_eq_ok {x : String} {t : Ty} {u : Unit} : declare x t g = ⟨c, g', .ok u⟩ ↔
    c = [] ∧ ∃ Γ, g.scopes.declare x t = .ok Γ ∧ g' = { g with scopes := Γ } := by
  unfold declare
  cases g.scopes.declare x t with
  | error f => simp
  | ok Γ => simp [eq_comm]

theorem inScope_eq_ok {x : Gen α} {a : α} : inScope x g = ⟨c, g', .ok a⟩ ↔
    ∃ g₁, x { g with scopes := g.scopes.push } = ⟨c, g₁, .ok a⟩ ∧
      g' = { g₁ with scopes := g₁.scopes.pop } := by
  unfold inScope
  rcases x { g with scopes := g.scopes.push } with ⟨c₁, g₁, r⟩
  simp only [Emission.mk.injEq]
  constructor
  · rintro ⟨rfl, rfl, rfl⟩; exact ⟨g₁, ⟨rfl, rfl, rfl⟩, rfl⟩
  · rintro ⟨g₂, ⟨rfl, rfl, rfl⟩, rfl⟩; exact ⟨rfl, rfl, rfl⟩

/-! ### Operations that emit at most one instruction, in front of others -/

theorem staticType_bind {e : Expr} {f : Ty → Gen β} :
    (staticType e >>= f) g = f (e.typeOf g.scopes) g := rfl

theorem newLabel_bind {f : String → Gen β} :
    (newLabel >>= f) g = f (labelName g.labels) { g with labels := g.labels + 1 } := rfl

theorem emit_bind_eq_ok {i : Instr} {f : Unit → Gen β} : (emit i >>= f) g = ⟨c, g', .ok b⟩ ↔
    ∃ c', f () g = ⟨c', g', .ok b⟩ ∧ c = i :: c' := by
  simp only [seq_eq_ok, emit_eq_ok]
  constructor
  · rintro ⟨_, _, c', ⟨rfl, rfl⟩, hf, rfl⟩; exact ⟨c', hf, rfl⟩
  · rintro ⟨c', hf, rfl⟩; exact ⟨_, _, c', ⟨rfl, rfl⟩, hf, rfl⟩

theorem convert_bind_eq_ok {given wanted : Ty} {f : Unit → Gen β} :
    (convert given wanted >>= f) g = ⟨c, g', .ok b⟩ ↔
      ∃ c', f () g = ⟨c', g', .ok b⟩ ∧ c = given.conversion wanted ++ c' := by
  simp only [seq_eq_ok, convert_eq_ok]
  constructor
  · rintro ⟨_, _, c', ⟨rfl, rfl⟩, hf, rfl⟩; exact ⟨c', hf, rfl⟩
  · rintro ⟨c', hf, rfl⟩; exact ⟨_, _, c', ⟨rfl, rfl⟩, hf, rfl⟩

theorem tagFor_bind_eq_ok {t : Ty} {s : String} {f : Tag → Gen β} :
    (tagFor t s >>= f) g = ⟨c, g', .ok b⟩ ↔
      ∃ tag, t.tag? = some tag ∧ f tag g = ⟨c, g', .ok b⟩ := by
  unfold tagFor
  cases t.tag? with
  | none => rw [bind_of_error (e := .unresolvedType s) rfl]; simp [fail]
  | some tag =>
    show f tag g = _ ↔ _
    simp

theorem declaredType_bind_eq_ok {x : String} {f : Ty → Gen β} :
    (declaredType x >>= f) g = ⟨c, g', .ok b⟩ ↔
      ∃ t, g.scopes.get? x = some t ∧ f t g = ⟨c, g', .ok b⟩ := by
  cases h : g.scopes.get? x with
  | none => rw [bind_of_error (e := .notDeclared x) (by simp [declaredType, h])]; simp
  | some t =>
    rw [bind_of_ok (a := t) (by simp [declaredType, h]), declaredType, h]
    show f t g = _ ↔ _
    simp

end Gen

/-! ## Expressions -/

/-- The code of an expression.  Only the number of labels changes. -/
inductive Expr.Emits (Γ : Scopes) : Nat → Expr → List Instr → Nat → Prop
  | lit {n tag text} : Emits Γ n (.lit tag text) [.push tag text] n
  | var {n x} : Emits Γ n (.var x) [.named .load x] n
  | minus {n e c n'} : Emits Γ n e c n' →
      Emits Γ n (.un .minus e)
        (c ++ [.typed .uminus (if e.typeOf Γ = .int then .int else .float)]) n'
  | not {n e c n'} : Emits Γ n e c n' → Emits Γ n (.un .not e) (c ++ [.plain .not]) n'
  | plain {n op p l cl n₁ r cr n₂} : op.form = .plain p →
      Emits Γ n l cl n₁ → Emits Γ n₁ r cr n₂ →
      Emits Γ n (.bin op l r) (cl ++ cr ++ [.plain p]) n₂
  | numeric {n op p l cl n₁ r cr n₂ tag} : op.form = .numeric p →
      Emits Γ n l cl n₁ → Emits Γ n₁ r cr n₂ →
      ((l.typeOf Γ).widen (r.typeOf Γ)).tag? = some tag →
      Emits Γ n (.bin op l r)
        (cl ++ (l.typeOf Γ).conversion (r.typeOf Γ) ++
          (cr ++ (r.typeOf Γ).conversion (l.typeOf Γ)) ++ [.typed p tag]) n₂
  | equality {n op neg l cl n₁ r cr n₂ tag} : op.form = .equality neg →
      Emits Γ n l cl n₁ → Emits Γ n₁ r cr n₂ →
      ((l.typeOf Γ).equalityType (r.typeOf Γ)).tag? = some tag →
      Emits Γ n (.bin op l r)
        (cl ++ (l.typeOf Γ).conversion (r.typeOf Γ) ++
          (cr ++ (r.typeOf Γ).conversion (l.typeOf Γ)) ++
          (.typed .eq tag :: if neg then [.plain .not] else [])) n₂
  | cond {n c cc n₁ t ct n₂ e ce n₃} :
      Emits Γ (n + 2) c cc n₁ → Emits Γ n₁ t ct n₂ → Emits Γ n₂ e ce n₃ →
      Emits Γ n (.cond c t e)
        (cc ++ .named .fjmp (labelName n) ::
          (ct ++ (t.typeOf Γ).conversion ((t.typeOf Γ).join (e.typeOf Γ)) ++
          .named .jmp (labelName (n + 1)) :: .named .label (labelName n) ::
          (ce ++ (e.typeOf Γ).conversion ((t.typeOf Γ).join (e.typeOf Γ)) ++
          [.named .label (labelName (n + 1))]))) n₃
  | paren {n e c n'} : Emits Γ n e c n' → Emits Γ n (.paren e) c n'

/-- The code of expressions from left to right. -/
inductive Expr.EmitsAll (Γ : Scopes) : Nat → List Expr → List Instr → Nat → Prop
  | nil {n} : EmitsAll Γ n [] [] n
  | cons {n e c₁ n₁ es c₂ n₂} : e.Emits Γ n c₁ n₁ → EmitsAll Γ n₁ es c₂ n₂ →
      EmitsAll Γ n (e :: es) (c₁ ++ c₂) n₂

open Gen in
/-- **A generator of an expression that succeeds emits its code.** -/
theorem Expr.emits_of_gen {e : Expr} : ∀ {g g' : GenState} {c : List Instr},
    e.gen g = ⟨c, g', .ok ()⟩ →
      e.Emits g.scopes g.labels c g'.labels ∧ g'.scopes = g.scopes := by
  induction e with
  | lit tag text =>
    intro g g' c h
    obtain ⟨rfl, rfl⟩ := emit_eq_ok.1 h
    exact ⟨.lit, rfl⟩
  | var x =>
    intro g g' c h
    obtain ⟨rfl, rfl⟩ := emit_eq_ok.1 h
    exact ⟨.var, rfl⟩
  | un op e ih =>
    intro g g' c h
    cases op with
    | minus =>
      simp only [gen, staticType_bind, seq_eq_ok, emit_eq_ok] at h
      obtain ⟨c₁, g₁, _, h₁, ⟨rfl, rfl⟩, rfl⟩ := h
      obtain ⟨he, hs⟩ := ih h₁
      exact ⟨.minus he, hs⟩
    | not =>
      simp only [gen, seq_eq_ok, emit_eq_ok] at h
      obtain ⟨c₁, g₁, _, h₁, ⟨rfl, rfl⟩, rfl⟩ := h
      obtain ⟨he, hs⟩ := ih h₁
      exact ⟨.not he, hs⟩
  | bin op l r ihl ihr =>
    intro g g' c h
    simp only [gen, staticType_bind] at h
    cases hop : op.form with
    | plain p =>
      simp only [hop, seq_eq_ok, emit_eq_ok] at h
      obtain ⟨cl, g₁, _, h₁, ⟨cr, g₂, _, h₂, ⟨rfl, rfl⟩, rfl⟩, rfl⟩ := h
      obtain ⟨hl, hs₁⟩ := ihl h₁
      obtain ⟨hr, hs₂⟩ := ihr h₂
      rw [hs₁] at hr hs₂
      exact ⟨by simpa using Emits.plain hop hl hr, hs₂⟩
    | numeric p =>
      simp only [hop, seq_eq_ok (x := gen _), convert_bind_eq_ok, tagFor_bind_eq_ok, emit_eq_ok] at h
      obtain ⟨cl, g₁, _, h₁, ⟨_, ⟨cr, g₂, _, h₂, ⟨_, ⟨tag, ht, rfl, rfl⟩, rfl⟩, rfl⟩, rfl⟩, rfl⟩ := h
      obtain ⟨hl, hs₁⟩ := ihl h₁
      obtain ⟨hr, hs₂⟩ := ihr h₂
      rw [hs₁] at hr hs₂
      exact ⟨by simpa using Emits.numeric hop hl hr ht, hs₂⟩
    | equality neg =>
      simp only [hop, seq_eq_ok (x := gen _), convert_bind_eq_ok, tagFor_bind_eq_ok,
        emit_bind_eq_ok, ite_emit_eq_ok] at h
      obtain ⟨cl, g₁, _, h₁, ⟨_, ⟨cr, g₂, _, h₂, ⟨_, ⟨tag, ht, _, ⟨rfl, rfl⟩, rfl⟩, rfl⟩, rfl⟩, rfl⟩,
        rfl⟩ := h
      obtain ⟨hl, hs₁⟩ := ihl h₁
      obtain ⟨hr, hs₂⟩ := ihr h₂
      rw [hs₁] at hr hs₂
      exact ⟨by simpa using Emits.equality hop hl hr ht, hs₂⟩
  | cond c t e ihc iht ihe =>
    intro g g' code h
    simp only [gen, staticType_bind, newLabel_bind, seq_eq_ok (x := gen _), emit_bind_eq_ok,
      convert_bind_eq_ok, emit_eq_ok] at h
    obtain ⟨cc, g₁, _, h₁, ⟨_, ⟨ct, g₂, _, h₂, ⟨_, ⟨_, ⟨_, ⟨ce, g₃, _, h₃, ⟨_, ⟨rfl, rfl⟩, rfl⟩, rfl⟩,
      rfl⟩, rfl⟩, rfl⟩, rfl⟩, rfl⟩, rfl⟩ := h
    obtain ⟨hc, hs₁⟩ := ihc h₁
    obtain ⟨ht, hs₂⟩ := iht h₂
    obtain ⟨he, hs₃⟩ := ihe h₃
    simp only at hc hs₁
    rw [hs₁] at ht hs₂
    rw [hs₂] at he hs₃
    exact ⟨by simpa using Emits.cond hc ht he, hs₃⟩
  | paren e ih =>
    intro g g' c h
    obtain ⟨he, hs⟩ := ih h
    exact ⟨.paren he, hs⟩

theorem Expr.emitsAll_of_genAll : ∀ {es : List Expr} {g g' : GenState} {c : List Instr},
    Expr.genAll es g = ⟨c, g', .ok ()⟩ →
      Expr.EmitsAll g.scopes g.labels es c g'.labels ∧ g'.scopes = g.scopes
  | [], g, g', c, h => by
    obtain ⟨rfl, rfl, -⟩ := Gen.pure_eq_ok.1 h
    exact ⟨.nil, rfl⟩
  | e :: es, g, g', c, h => by
    obtain ⟨c₁, g₁, c₂, h₁, h₂, rfl⟩ := Gen.seq_eq_ok.1 h
    obtain ⟨he, hs₁⟩ := Expr.emits_of_gen h₁
    obtain ⟨hes, hs₂⟩ := emitsAll_of_genAll h₂
    rw [hs₁] at hes hs₂
    exact ⟨.cons he hes, hs₂⟩

/-! ## Statements -/

/-- The code that stores a value in a variable of the type `t`. -/
inductive Expr.EmitsStore (Γ : Scopes) (x : String) (t : Ty) : Nat → Expr → List Instr → Nat → Prop
  | store {n e c n'} : e.Emits Γ n c n' →
      EmitsStore Γ x t n e (c ++ (e.typeOf Γ).conversion t ++ [.named .save x]) n'

/-- The code of the first part of a `for` loop. -/
inductive ForInit.Emits (Γ : Scopes) : Nat → Option ForInit → List Instr → Scopes → Nat → Prop
  | none {n} : Emits Γ n none [] Γ n
  | decl {n t x e c Γ' n'} : e.EmitsStore Γ x t n c n' → Γ.declare x t = .ok Γ' →
      Emits Γ n (some (.decl t x e)) c Γ' n'
  | assign {n x t e c n'} : Γ.get? x = some t → e.EmitsStore Γ x t n c n' →
      Emits Γ n (some (.assign x e)) c Γ n'

/-- The code of a test that goes on at the label `l` if it fails. -/
inductive Expr.EmitsTest (Γ : Scopes) (l : String) : Nat → Option Expr → List Instr → Nat → Prop
  | none {n} : EmitsTest Γ l n none [] n
  | some {n e c n'} : e.Emits Γ n c n' → EmitsTest Γ l n (some e) (c ++ [.named .fjmp l]) n'

/-- The code of statements in order. -/
inductive Stmt.EmitsAll : Scopes → Nat → List Stmt → List Instr → Scopes → Nat → Prop
  | nil {Γ n} : EmitsAll Γ n [] [] Γ n
  | cons {Γ n s c₁ Γ₁ n₁ ss c₂ Γ₂ n₂} :
      EmitsAll Γ n [s] c₁ Γ₁ n₁ → EmitsAll Γ₁ n₁ ss c₂ Γ₂ n₂ →
      EmitsAll Γ n (s :: ss) (c₁ ++ c₂) Γ₂ n₂
  | decl {Γ n t xs Γ'} : Γ.checkDeclareAll t xs = (Γ', []) →
      EmitsAll Γ n [.decl t xs] [] Γ' n
  | assign {Γ n x t e c n'} : Γ.get? x = some t → e.EmitsStore Γ x t n c n' →
      EmitsAll Γ n [.assign x e] c Γ n'
  | expr {Γ n e c n'} : e.Emits Γ n c n' → EmitsAll Γ n [.expr e] (c ++ [.plain .pop]) Γ n'
  | write {Γ n es c n'} : Expr.EmitsAll Γ n es c n' →
      EmitsAll Γ n [.write es] (c ++ [.print es.length]) Γ n'
  | readNil {Γ n} : EmitsAll Γ n [.read []] [] Γ n
  | readCons {Γ n x t tag xs c} : Γ.get? x = some t → t.tag? = some tag →
      EmitsAll Γ n [.read xs] c Γ n →
      EmitsAll Γ n [.read (x :: xs)] (.typed .read tag :: .named .save x :: c) Γ n
  | ifElse {Γ n c cc n₁ t ct Γ₁ n₂ e ce Γ₂ n₃} :
      c.Emits Γ (n + 2) cc n₁ → EmitsAll Γ n₁ [t] ct Γ₁ n₂ → EmitsAll Γ₁ n₂ e.toList ce Γ₂ n₃ →
      EmitsAll Γ n [.ifElse c t e]
        (cc ++ .named .fjmp (labelName n) :: (ct ++ .named .jmp (labelName (n + 1)) ::
          .named .label (labelName n) :: (ce ++ [.named .label (labelName (n + 1))]))) Γ₂ n₃
  | whileLoop {Γ n c cc n₁ b cb Γ₁ n₂} :
      c.Emits Γ (n + 2) cc n₁ → EmitsAll Γ n₁ [b] cb Γ₁ n₂ →
      EmitsAll Γ n [.whileLoop c b]
        (.named .label (labelName n) :: (cc ++ .named .fjmp (labelName (n + 1)) ::
          (cb ++ [.named .jmp (labelName n), .named .label (labelName (n + 1))]))) Γ₁ n₂
  | forLoop {Γ n init ci Γ₁ n₁ c cc n₂ b cb Γ₂ n₃ step cs Γ₃ n₄} :
      ForInit.Emits Γ.push n init ci Γ₁ n₁ →
      Expr.EmitsTest Γ₁ (labelName (n₁ + 1)) (n₁ + 2) c cc n₂ →
      EmitsAll Γ₁ n₂ [b] cb Γ₂ n₃ → EmitsAll Γ₂ n₃ step.toList cs Γ₃ n₄ →
      EmitsAll Γ n [.forLoop init c step b]
        (ci ++ .named .label (labelName n₁) :: (cc ++ (cb ++ (cs ++
          [.named .jmp (labelName n₁), .named .label (labelName (n₁ + 1))])))) Γ n₄
  | block {Γ n ss c Γ' n'} : EmitsAll Γ.push n ss c Γ' n' → EmitsAll Γ n [.block ss] c Γ n'

theorem Scopes.declare_outer {Γ Γ' : Scopes} {x : String} {t : Ty} (h : Γ.declare x t = .ok Γ') :
    Γ'.outer = Γ.outer := by
  unfold declare at h
  cases hc : Γ.current.declare x t with
  | error f => simp [hc, Except.map] at h
  | ok s => simp only [hc, Except.map, Except.ok.injEq] at h; rw [← h]

/-- Scopes whose outer scopes are `Γ`'s close to `Γ`. -/
theorem Scopes.pop_of_outer {Γ Γ' : Scopes} (h : Γ'.outer = Γ.push.outer) : Γ'.pop = Γ := by
  simp [pop, pop?, h, push]

open Gen

theorem Gen.declareAll_eq_ok {t : Ty} : ∀ {xs : List String} {g g' : GenState} {c : List Instr},
    declareAll t xs g = ⟨c, g', .ok ()⟩ → c = [] ∧ g'.labels = g.labels ∧
      g.scopes.checkDeclareAll t xs = (g'.scopes, []) ∧ g'.scopes.outer = g.scopes.outer
  | [], g, g', c, h => by
    obtain ⟨rfl, rfl, -⟩ := pure_eq_ok.1 h
    exact ⟨rfl, rfl, rfl, rfl⟩
  | x :: xs, g, g', c, h => by
    obtain ⟨c₁, g₁, c₂, h₁, h₂, rfl⟩ := seq_eq_ok.1 h
    obtain ⟨rfl, Γ, hΓ, rfl⟩ := declare_eq_ok.1 h₁
    obtain ⟨rfl, hn, hc, ho⟩ := declareAll_eq_ok h₂
    refine ⟨rfl, hn, ?_, ho.trans (Scopes.declare_outer hΓ)⟩
    simp [Scopes.checkDeclareAll, Scopes.checkDeclare, hΓ, hc]

theorem Expr.emitsStore_of_store {x : String} {t : Ty} {e : Expr} {g g' : GenState} {c : List Instr}
    (h : Gen.store x t e g = ⟨c, g', .ok ()⟩) :
    e.EmitsStore g.scopes x t g.labels c g'.labels ∧ g'.scopes = g.scopes := by
  simp only [Gen.store, staticType_bind, seq_eq_ok (x := gen _), convert_bind_eq_ok,
    emit_eq_ok] at h
  obtain ⟨c₁, g₁, _, h₁, ⟨_, ⟨rfl, rfl⟩, rfl⟩, rfl⟩ := h
  obtain ⟨he, hs⟩ := emits_of_gen h₁
  exact ⟨by simpa using EmitsStore.store he, hs⟩

theorem Stmt.emitsAll_of_readAll : ∀ {xs : List String} {g g' : GenState} {c : List Instr},
    Gen.readAll xs g = ⟨c, g', .ok ()⟩ →
      Stmt.EmitsAll g.scopes g.labels [.read xs] c g.scopes g.labels ∧ g' = g
  | [], g, g', c, h => by
    obtain ⟨rfl, rfl, -⟩ := pure_eq_ok.1 h
    exact ⟨.readNil, rfl⟩
  | x :: xs, g, g', c, h => by
    simp only [Gen.readAll, declaredType_bind_eq_ok, tagFor_bind_eq_ok, emit_bind_eq_ok] at h
    obtain ⟨t, hx, tag, ht, _, ⟨c', h', rfl⟩, rfl⟩ := h
    obtain ⟨hc, rfl⟩ := emitsAll_of_readAll h'
    exact ⟨.readCons hx ht hc, rfl⟩

theorem ForInit.emits_of_gen {init : Option ForInit} {g g' : GenState} {c : List Instr}
    (h : ForInit.genOption init g = ⟨c, g', .ok ()⟩) :
    ForInit.Emits g.scopes g.labels init c g'.scopes g'.labels ∧
      g'.scopes.outer = g.scopes.outer := by
  rcases init with _ | ⟨t, x, e⟩ | ⟨x, e⟩
  · obtain ⟨rfl, rfl, -⟩ := pure_eq_ok.1 h
    exact ⟨.none, rfl⟩
  · simp only [genOption, gen, seq_eq_ok, declare_eq_ok] at h
    obtain ⟨c₁, g₁, _, h₁, ⟨rfl, Γ, hΓ, rfl⟩, rfl⟩ := h
    obtain ⟨he, hs⟩ := Expr.emitsStore_of_store h₁
    rw [hs] at hΓ
    exact ⟨by simpa using Emits.decl he hΓ, Scopes.declare_outer hΓ⟩
  · simp only [genOption, gen, Gen.assignTo, declaredType_bind_eq_ok] at h
    obtain ⟨t, hx, h₁⟩ := h
    obtain ⟨he, hs⟩ := Expr.emitsStore_of_store h₁
    rw [hs]
    exact ⟨.assign hx he, rfl⟩

theorem Expr.emitsTest_of_exitUnless {l : String} {c : Option Expr} {g g' : GenState}
    {code : List Instr} (h : Gen.exitUnless l c g = ⟨code, g', .ok ()⟩) :
    Expr.EmitsTest g.scopes l g.labels c code g'.labels ∧ g'.scopes = g.scopes := by
  cases c with
  | none =>
    obtain ⟨rfl, rfl, -⟩ := pure_eq_ok.1 h
    exact ⟨.none, rfl⟩
  | some c =>
    obtain ⟨c₁, g₁, _, h₁, h₂, rfl⟩ := seq_eq_ok.1 h
    obtain ⟨rfl, rfl⟩ := emit_eq_ok.1 h₂
    obtain ⟨he, hs⟩ := emits_of_gen h₁
    exact ⟨.some he, hs⟩

mutual

/-- **A generator of a statement that succeeds emits its code**, and touches the
    current scope only. -/
theorem Stmt.emitsAll_of_gen : ∀ {s : Stmt} {g g' : GenState} {c : List Instr},
    s.gen g = ⟨c, g', .ok ()⟩ →
      Stmt.EmitsAll g.scopes g.labels [s] c g'.scopes g'.labels ∧
        g'.scopes.outer = g.scopes.outer
  | .decl t xs, g, g', c, h => by
    obtain ⟨rfl, hn, hd, ho⟩ := declareAll_eq_ok h
    rw [hn]
    exact ⟨.decl hd, ho⟩
  | .assign x e, g, g', c, h => by
    obtain ⟨t, hx, h₁⟩ := declaredType_bind_eq_ok.1 h
    obtain ⟨he, hs⟩ := Expr.emitsStore_of_store h₁
    rw [hs]
    exact ⟨.assign hx he, rfl⟩
  | .expr e, g, g', c, h => by
    obtain ⟨c₁, g₁, _, h₁, h₂, rfl⟩ := seq_eq_ok.1 h
    obtain ⟨rfl, rfl⟩ := emit_eq_ok.1 h₂
    obtain ⟨he, hs⟩ := Expr.emits_of_gen h₁
    rw [hs]
    exact ⟨.expr he, rfl⟩
  | .write es, g, g', c, h => by
    obtain ⟨c₁, g₁, _, h₁, h₂, rfl⟩ := seq_eq_ok.1 h
    obtain ⟨rfl, rfl⟩ := emit_eq_ok.1 h₂
    obtain ⟨he, hs⟩ := Expr.emitsAll_of_genAll h₁
    rw [hs]
    exact ⟨.write he, rfl⟩
  | .read xs, g, g', c, h => by
    obtain ⟨hr, rfl⟩ := emitsAll_of_readAll h
    exact ⟨hr, rfl⟩
  | .ifElse c t e, g, g', code, h => by
    simp only [gen, newLabel_bind, seq_eq_ok (x := Expr.gen _), seq_eq_ok (x := Stmt.gen _),
      seq_eq_ok (x := Stmt.genOption _), emit_bind_eq_ok, emit_eq_ok] at h
    obtain ⟨cc, g₁, _, h₁, ⟨_, ⟨ct, g₂, _, h₂, ⟨_, ⟨_, ⟨ce, g₃, _, h₃, ⟨rfl, rfl⟩, rfl⟩, rfl⟩,
      rfl⟩, rfl⟩, rfl⟩, rfl⟩ := h
    obtain ⟨hc, hs⟩ := Expr.emits_of_gen h₁
    obtain ⟨ht, ho₁⟩ := emitsAll_of_gen h₂
    obtain ⟨he, ho₂⟩ := emitsAll_of_genOption h₃
    rw [hs] at ht ho₁
    exact ⟨.ifElse hc ht he, ho₂.trans ho₁⟩
  | .whileLoop c b, g, g', code, h => by
    simp only [gen, newLabel_bind, seq_eq_ok (x := Expr.gen _), seq_eq_ok (x := Stmt.gen _),
      emit_bind_eq_ok, emit_eq_ok] at h
    obtain ⟨_, ⟨cc, g₁, _, h₁, ⟨_, ⟨cb, g₂, _, h₂, ⟨_, ⟨rfl, rfl⟩, rfl⟩, rfl⟩, rfl⟩, rfl⟩, rfl⟩ := h
    obtain ⟨hc, hs⟩ := Expr.emits_of_gen h₁
    obtain ⟨hb, ho⟩ := emitsAll_of_gen h₂
    rw [hs] at hb ho
    exact ⟨.whileLoop hc hb, ho⟩
  | .forLoop init c step b, g, g', code, h => by
    obtain ⟨g₀, h₀, rfl⟩ := inScope_eq_ok.1 h
    simp only [newLabel_bind, seq_eq_ok (x := ForInit.genOption _),
      seq_eq_ok (x := Gen.exitUnless _ _), seq_eq_ok (x := Stmt.gen _),
      seq_eq_ok (x := Stmt.genOption _), emit_bind_eq_ok, emit_eq_ok] at h₀
    obtain ⟨ci, g₁, _, h₁, ⟨_, ⟨cc, g₂, _, h₂, ⟨cb, g₃, _, h₃, ⟨cs, g₄, _, h₄, ⟨_, ⟨rfl, rfl⟩, rfl⟩,
      rfl⟩, rfl⟩, rfl⟩, rfl⟩, rfl⟩ := h₀
    obtain ⟨hi, ho₁⟩ := ForInit.emits_of_gen h₁
    obtain ⟨hc, hs⟩ := Expr.emitsTest_of_exitUnless h₂
    obtain ⟨hb, ho₂⟩ := emitsAll_of_gen h₃
    obtain ⟨hst, ho₃⟩ := emitsAll_of_genOption h₄
    rw [hs] at hb ho₂
    rw [Scopes.pop_of_outer (ho₃.trans (ho₂.trans ho₁))]
    exact ⟨.forLoop hi hc hb hst, rfl⟩
  | .block ss, g, g', c, h => by
    obtain ⟨g₀, h₀, rfl⟩ := inScope_eq_ok.1 h
    obtain ⟨hb, ho⟩ := emitsAll_of_genAll h₀
    rw [Scopes.pop_of_outer ho]
    exact ⟨.block hb, rfl⟩

theorem Stmt.emitsAll_of_genOption : ∀ {o : Option Stmt} {g g' : GenState} {c : List Instr},
    Stmt.genOption o g = ⟨c, g', .ok ()⟩ →
      Stmt.EmitsAll g.scopes g.labels o.toList c g'.scopes g'.labels ∧
        g'.scopes.outer = g.scopes.outer
  | none, g, g', c, h => by
    obtain ⟨rfl, rfl, -⟩ := pure_eq_ok.1 h
    exact ⟨.nil, rfl⟩
  | some s, g, g', c, h => emitsAll_of_gen h

theorem Stmt.emitsAll_of_genAll : ∀ {ss : List Stmt} {g g' : GenState} {c : List Instr},
    Stmt.genAll ss g = ⟨c, g', .ok ()⟩ →
      Stmt.EmitsAll g.scopes g.labels ss c g'.scopes g'.labels ∧
        g'.scopes.outer = g.scopes.outer
  | [], g, g', c, h => by
    obtain ⟨rfl, rfl, -⟩ := pure_eq_ok.1 h
    exact ⟨.nil, rfl⟩
  | s :: ss, g, g', c, h => by
    obtain ⟨c₁, g₁, c₂, h₁, h₂, rfl⟩ := seq_eq_ok.1 h
    obtain ⟨hs, ho₁⟩ := emitsAll_of_gen h₁
    obtain ⟨hss, ho₂⟩ := emitsAll_of_genAll h₂
    exact ⟨.cons hs hss, ho₂.trans ho₁⟩

end

/-- The code of a program. -/
theorem Program.emitsAll_of_gen {p : Program} {code : List Instr} (h : p.gen = .ok code) :
    ∃ Γ n, Stmt.EmitsAll .empty 0 p code Γ n := by
  unfold Program.gen Program.genRun at h
  rcases hp : Stmt.genAll p {} with ⟨c, g, _ | _⟩
  · simp [hp, Except.map] at h
  · simp only [hp, Except.map, Except.ok.injEq] at h
    subst h
    exact ⟨_, _, (Stmt.emitsAll_of_genAll hp).1⟩

end StackLang
