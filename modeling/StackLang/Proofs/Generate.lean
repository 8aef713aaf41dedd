/-
  When a program generates.

  * `Program.gen_eq_ok_iff`: a generator yields exactly the code that is emitted
    in the sense of `Stmt.EmitsAll`;
  * `Stmt.resolves Γ s`: in the order of generation, every variable that is
    assigned or read is declared, no variable is declared twice in its scope, and
    operands of arithmetic and comparisons have a type.  A program generates
    exactly if it resolves (`Program.gen_isOk_iff`).
-/
import StackLang.Proofs.Checked

namespace StackLang

open Gen

/-! ## The code of a generator -/

theorem Expr.gen_of_emits {Γ : Scopes} {n n' : Nat} {e : Expr} {c : List Instr}
    (h : e.Emits Γ n c n') : e.gen ⟨Γ, n⟩ = ⟨c, ⟨Γ, n'⟩, .ok ()⟩ := by
  induction h with
  | lit | var => rfl
  | minus _ ih =>
    simp only [gen, staticType_bind, seq_eq_ok, emit_eq_ok]
    exact ⟨_, _, _, ih, ⟨rfl, rfl⟩, rfl⟩
  | not _ ih =>
    simp only [gen, seq_eq_ok, emit_eq_ok]
    exact ⟨_, _, _, ih, ⟨rfl, rfl⟩, rfl⟩
  | plain hop _ _ ihl ihr =>
    simp only [gen, staticType_bind, hop, seq_eq_ok, emit_eq_ok]
    exact ⟨_, _, _, ihl, ⟨_, _, _, ihr, ⟨rfl, rfl⟩, rfl⟩, by simp⟩
  | numeric hop _ _ ht ihl ihr =>
    simp only [gen, staticType_bind, hop, seq_eq_ok (x := gen _), convert_bind_eq_ok,
      tagFor_bind_eq_ok, emit_eq_ok]
    exact ⟨_, _, _, ihl, ⟨_, ⟨_, _, _, ihr, ⟨_, ⟨_, ht, rfl, rfl⟩, rfl⟩, rfl⟩, rfl⟩, by simp⟩
  | equality hop _ _ ht ihl ihr =>
    simp only [gen, staticType_bind, hop, seq_eq_ok (x := gen _), convert_bind_eq_ok,
      tagFor_bind_eq_ok, emit_bind_eq_ok, ite_emit_eq_ok]
    exact ⟨_, _, _, ihl, ⟨_, ⟨_, _, _, ihr, ⟨_, ⟨_, ht, _, ⟨rfl, rfl⟩, rfl⟩, rfl⟩, rfl⟩, rfl⟩, by simp⟩
  | cond _ _ _ ihc iht ihe =>
    simp only [gen, staticType_bind, newLabel_bind, seq_eq_ok (x := gen _), emit_bind_eq_ok,
      convert_bind_eq_ok, emit_eq_ok]
    exact ⟨_, _, _, ihc, ⟨_, ⟨_, _, _, iht, ⟨_, ⟨_, ⟨_, ⟨_, _, _, ihe, ⟨_, ⟨rfl, rfl⟩, rfl⟩, rfl⟩,
      rfl⟩, rfl⟩, rfl⟩, rfl⟩, rfl⟩, by simp⟩
  | paren _ ih => exact ih

theorem Expr.genAll_of_emitsAll {Γ : Scopes} {n n' : Nat} {es : List Expr} {c : List Instr}
    (h : Expr.EmitsAll Γ n es c n') : Expr.genAll es ⟨Γ, n⟩ = ⟨c, ⟨Γ, n'⟩, .ok ()⟩ := by
  induction h with
  | nil => rfl
  | cons he _ ih => exact seq_eq_ok.2 ⟨_, _, _, Expr.gen_of_emits he, ih, rfl⟩

theorem Expr.store_of_emits {Γ : Scopes} {x : String} {t : Ty} {n n' : Nat} {e : Expr}
    {c : List Instr} (h : e.EmitsStore Γ x t n c n') :
    Gen.store x t e ⟨Γ, n⟩ = ⟨c, ⟨Γ, n'⟩, .ok ()⟩ := by
  cases h with
  | store he =>
    simp only [Gen.store, staticType_bind, seq_eq_ok (x := gen _), convert_bind_eq_ok, emit_eq_ok]
    exact ⟨_, _, _, gen_of_emits he, ⟨_, ⟨rfl, rfl⟩, rfl⟩, by simp⟩

theorem Gen.declareAll_of_check {t : Ty} {n : Nat} : ∀ {xs : List String} {Γ Γ' : Scopes},
    Γ.checkDeclareAll t xs = (Γ', []) → declareAll t xs ⟨Γ, n⟩ = ⟨[], ⟨Γ', n⟩, .ok ()⟩
  | [], Γ, Γ', h => by
    simp only [Scopes.checkDeclareAll, Prod.mk.injEq, and_true] at h
    subst h
    rfl
  | x :: xs, Γ, Γ', h => by
    simp only [Scopes.checkDeclareAll, Scopes.checkDeclare] at h
    cases hd : Γ.declare x t with
    | error f => simp [hd] at h
    | ok Γ₁ =>
      simp only [hd, List.nil_append] at h
      exact seq_eq_ok.2 ⟨_, _, _, declare_eq_ok.2 ⟨rfl, _, hd, rfl⟩, declareAll_of_check h, rfl⟩

theorem ForInit.gen_of_emits {Γ Γ' : Scopes} {n n' : Nat} {init : Option ForInit} {c : List Instr}
    (h : ForInit.Emits Γ n init c Γ' n') :
    ForInit.genOption init ⟨Γ, n⟩ = ⟨c, ⟨Γ', n'⟩, .ok ()⟩ := by
  cases h with
  | none => rfl
  | decl he hd =>
    exact seq_eq_ok.2 ⟨_, _, _, Expr.store_of_emits he, declare_eq_ok.2 ⟨rfl, _, hd, rfl⟩, by simp⟩
  | assign hx he => exact declaredType_bind_eq_ok.2 ⟨_, hx, Expr.store_of_emits he⟩

theorem Expr.exitUnless_of_emits {Γ : Scopes} {l : String} {n n' : Nat} {o : Option Expr}
    {c : List Instr} (h : Expr.EmitsTest Γ l n o c n') :
    Gen.exitUnless l o ⟨Γ, n⟩ = ⟨c, ⟨Γ, n'⟩, .ok ()⟩ := by
  cases h with
  | none => rfl
  | some he => exact seq_eq_ok.2 ⟨_, _, _, gen_of_emits he, emit_eq_ok.2 ⟨rfl, rfl⟩, rfl⟩

theorem Stmt.genAll_singleton {s : Stmt} {g g' : GenState} {c : List Instr} :
    Stmt.genAll [s] g = ⟨c, g', .ok ()⟩ ↔ s.gen g = ⟨c, g', .ok ()⟩ := by
  simp only [genAll, seq_eq_ok, pure_eq_ok]
  constructor
  · rintro ⟨c₁, g₁, _, h, ⟨rfl, rfl, -⟩, rfl⟩; simpa using h
  · intro h; exact ⟨c, g', [], h, ⟨rfl, rfl, trivial⟩, by simp⟩

theorem Stmt.genOption_eq_ok {o : Option Stmt} {g g' : GenState} {c : List Instr} :
    Stmt.genOption o g = ⟨c, g', .ok ()⟩ ↔ Stmt.genAll o.toList g = ⟨c, g', .ok ()⟩ := by
  cases o with
  | none => rfl
  | some s => exact genAll_singleton.symm

theorem Stmt.foldl_after_outer (ss : List Stmt) {Γ : Scopes} :
    (ss.foldl Stmt.after Γ).outer = Γ.outer := by
  induction ss generalizing Γ with
  | nil => rfl
  | cons s ss ih => exact ih.trans s.after_outer

theorem Stmt.EmitsAll.outer {Γ Γ' : Scopes} {n n' : Nat} {ss : List Stmt} {c : List Instr}
    (h : Stmt.EmitsAll Γ n ss c Γ' n') : Γ'.outer = Γ.outer := by
  rw [← h.after]
  exact foldl_after_outer ss

theorem ForInit.Emits.outer {Γ Γ' : Scopes} {n n' : Nat} {init : Option ForInit} {c : List Instr}
    (h : ForInit.Emits Γ n init c Γ' n') : Γ'.outer = Γ.outer := by
  rw [← h.after]
  exact ForInit.after_outer

/-- **Code that is emitted is generated.** -/
theorem Stmt.genAll_of_emitsAll {Γ Γ' : Scopes} {n n' : Nat} {ss : List Stmt} {c : List Instr}
    (h : Stmt.EmitsAll Γ n ss c Γ' n') :
    Stmt.genAll ss ⟨Γ, n⟩ = ⟨c, ⟨Γ', n'⟩, .ok ()⟩ := by
  induction h with
  | nil => rfl
  | cons _ _ ih₁ ih₂ => exact seq_eq_ok.2 ⟨_, _, _, genAll_singleton.1 ih₁, ih₂, rfl⟩
  | decl hd => exact genAll_singleton.2 (declareAll_of_check hd)
  | assign hx he =>
    exact genAll_singleton.2 (declaredType_bind_eq_ok.2 ⟨_, hx, Expr.store_of_emits he⟩)
  | expr he =>
    exact genAll_singleton.2
      (seq_eq_ok.2 ⟨_, _, _, Expr.gen_of_emits he, emit_eq_ok.2 ⟨rfl, rfl⟩, rfl⟩)
  | write hes =>
    exact genAll_singleton.2
      (seq_eq_ok.2 ⟨_, _, _, Expr.genAll_of_emitsAll hes, emit_eq_ok.2 ⟨rfl, rfl⟩, rfl⟩)
  | readNil => rfl
  | readCons hx ht _ ih =>
    rw [genAll_singleton] at ih ⊢
    simp only [gen, Gen.readAll, declaredType_bind_eq_ok, tagFor_bind_eq_ok, emit_bind_eq_ok]
    exact ⟨_, hx, _, ht, _, ⟨_, ih, rfl⟩, rfl⟩
  | ifElse hc _ _ iht ihe =>
    rw [genAll_singleton] at iht ⊢
    rw [← genOption_eq_ok] at ihe
    simp only [gen, newLabel_bind, seq_eq_ok (x := Expr.gen _), seq_eq_ok (x := Stmt.gen _),
      seq_eq_ok (x := Stmt.genOption _), emit_bind_eq_ok, emit_eq_ok]
    exact ⟨_, _, _, Expr.gen_of_emits hc, ⟨_, ⟨_, _, _, iht, ⟨_, ⟨_, ⟨_, _, _, ihe, ⟨rfl, rfl⟩, rfl⟩,
      rfl⟩, rfl⟩, rfl⟩, rfl⟩, rfl⟩
  | whileLoop hc _ ih =>
    rw [genAll_singleton] at ih ⊢
    simp only [gen, newLabel_bind, seq_eq_ok (x := Expr.gen _), seq_eq_ok (x := Stmt.gen _),
      emit_bind_eq_ok, emit_eq_ok]
    exact ⟨_, ⟨_, _, _, Expr.gen_of_emits hc, ⟨_, ⟨_, _, _, ih, ⟨_, ⟨rfl, rfl⟩, rfl⟩, rfl⟩, rfl⟩,
      rfl⟩, rfl⟩
  | @forLoop _ _ _ _ _ _ _ _ _ _ _ _ _ _ _ Γ₃ n₄ hi hc hb hs ihb ihs =>
    rw [genAll_singleton] at ihb ⊢
    rw [← genOption_eq_ok] at ihs
    have hpop : Γ₃.pop = _ := Scopes.pop_of_outer (hs.outer.trans (hb.outer.trans hi.outer))
    refine inScope_eq_ok.2 ⟨⟨Γ₃, n₄⟩, ?_, by rw [hpop]⟩
    simp only [newLabel_bind, seq_eq_ok (x := ForInit.genOption _),
      seq_eq_ok (x := Gen.exitUnless _ _), seq_eq_ok (x := Stmt.gen _),
      seq_eq_ok (x := Stmt.genOption _), emit_bind_eq_ok, emit_eq_ok]
    exact ⟨_, _, _, ForInit.gen_of_emits hi, ⟨_, ⟨_, _, _, Expr.exitUnless_of_emits hc, ⟨_, _, _, ihb,
      ⟨_, _, _, ihs, ⟨_, ⟨rfl, rfl⟩, rfl⟩, rfl⟩, rfl⟩, rfl⟩, rfl⟩, rfl⟩
  | block hb ih =>
    rw [genAll_singleton]
    exact inScope_eq_ok.2 ⟨_, ih, by rw [Scopes.pop_of_outer hb.outer]⟩

/-- The code of a program is what its statements emit. -/
theorem Program.gen_eq_ok_iff {p : Program} {code : List Instr} :
    p.gen = .ok code ↔ ∃ Γ n, Stmt.EmitsAll .empty 0 p code Γ n := by
  refine ⟨Program.emitsAll_of_gen, ?_⟩
  rintro ⟨Γ, n, h⟩
  have hp : Stmt.genAll p {} = ⟨code, ⟨Γ, n⟩, .ok ()⟩ := Stmt.genAll_of_emitsAll h
  simp only [Program.gen, Program.genRun, hp, Except.map]

/-! ## Programs that generate -/

/-- The operands of an operator have a common type, if its code needs one. -/
def BinOp.resolves (op : BinOp) (l r : Ty) : Bool :=
  match op.form with
  | .plain _ => true
  | .numeric _ => !(l.widen r).isError
  | .equality _ => !(l.equalityType r).isError

/-- The operands of all operators have the types that code needs.  A variable need
    not be declared to be loaded. -/
def Expr.resolves (Γ : Scopes) : Expr → Bool
  | .lit _ _ | .var _ => true
  | .un _ e | .paren e => e.resolves Γ
  | .bin op l r => l.resolves Γ && r.resolves Γ && op.resolves (l.typeOf Γ) (r.typeOf Γ)
  | .cond c t e => c.resolves Γ && t.resolves Γ && e.resolves Γ

/-- The variable that a `for` loop starts with is new or declared, as it has to be. -/
def ForInit.resolves (Γ : Scopes) : Option ForInit → Bool
  | none => true
  | some (.decl _ x e) => e.resolves Γ && !Γ.declaresHere x
  | some (.assign x e) => (Γ.get? x).isSome && e.resolves Γ

mutual

/-- In the order of generation, variables that are assigned or read are declared,
    declared ones are new in their scope, and operands have types. -/
def Stmt.resolves (Γ : Scopes) : Stmt → Bool
  | .decl t xs => (Γ.checkDeclareAll t xs).2.isEmpty
  | .assign x e => (Γ.get? x).isSome && e.resolves Γ
  | .expr e => e.resolves Γ
  | .write es => es.all (·.resolves Γ)
  | .read xs => xs.all fun x => ((Γ.get? x).bind Ty.tag?).isSome
  | .ifElse c t e => c.resolves Γ && t.resolves Γ && Stmt.resolvesOption (t.after Γ) e
  | .whileLoop c b => c.resolves Γ && b.resolves Γ
  | .forLoop init c step b =>
    let Γ₁ := ForInit.after Γ.push init
    ForInit.resolves Γ.push init && c.all (·.resolves Γ₁) && b.resolves Γ₁ &&
      Stmt.resolvesOption (b.after Γ₁) step
  | .block ss => Stmt.resolvesAll Γ.push ss

/-- A statement resolves, if there is one. -/
def Stmt.resolvesOption (Γ : Scopes) : Option Stmt → Bool
  | none => true
  | some s => s.resolves Γ

/-- Statements resolve, each behind the declarations of those before. -/
def Stmt.resolvesAll (Γ : Scopes) : List Stmt → Bool
  | [] => true
  | s :: ss => s.resolves Γ && Stmt.resolvesAll (s.after Γ) ss

end

theorem Ty.exists_tag?_iff {t : Ty} : (∃ tag, t.tag? = some tag) ↔ t.isError = false := by
  cases t <;> simp [tag?, isError]

/-- An expression that resolves has code, whatever labels were minted before. -/
theorem Expr.exists_emits {Γ : Scopes} {e : Expr} (h : e.resolves Γ) :
    ∀ n, ∃ c n', e.Emits Γ n c n' := by
  induction e with
  | lit | var => intro n; exact ⟨_, _, by constructor⟩
  | un op e ih =>
    intro n
    obtain ⟨c, n', he⟩ := ih h n
    cases op with
    | minus => exact ⟨_, _, .minus he⟩
    | not => exact ⟨_, _, .not he⟩
  | bin op l r ihl ihr =>
    intro n
    simp only [resolves, Bool.and_eq_true] at h
    obtain ⟨⟨hl, hr⟩, ho⟩ := h
    obtain ⟨cl, n₁, hl⟩ := ihl hl n
    obtain ⟨cr, n₂, hr⟩ := ihr hr n₁
    cases hop : op.form with
    | plain p => exact ⟨_, _, .plain hop hl hr⟩
    | numeric p =>
      obtain ⟨tag, ht⟩ := Ty.exists_tag?_iff.2 (by simpa [BinOp.resolves, hop] using ho)
      exact ⟨_, _, .numeric hop hl hr ht⟩
    | equality neg =>
      obtain ⟨tag, ht⟩ := Ty.exists_tag?_iff.2 (by simpa [BinOp.resolves, hop] using ho)
      exact ⟨_, _, .equality hop hl hr ht⟩
  | cond c t e ihc iht ihe =>
    intro n
    simp only [resolves, Bool.and_eq_true] at h
    obtain ⟨_, n₁, hc⟩ := ihc h.1.1 (n + 2)
    obtain ⟨_, n₂, ht⟩ := iht h.1.2 n₁
    obtain ⟨_, _, he⟩ := ihe h.2 n₂
    exact ⟨_, _, .cond hc ht he⟩
  | paren e ih =>
    intro n
    obtain ⟨c, n', he⟩ := ih h n
    exact ⟨_, _, .paren he⟩

theorem Expr.Emits.resolves {Γ : Scopes} {n n' : Nat} {e : Expr} {c : List Instr}
    (h : e.Emits Γ n c n') : e.resolves Γ = true := by
  induction h with
  | lit | var => rfl
  | minus _ ih | not _ ih | paren _ ih => exact ih
  | plain hop _ _ ihl ihr => simp [Expr.resolves, ihl, ihr, BinOp.resolves, hop]
  | numeric hop _ _ ht ihl ihr | equality hop _ _ ht ihl ihr =>
    simp [Expr.resolves, ihl, ihr, BinOp.resolves, hop, Ty.exists_tag?_iff.1 ⟨_, ht⟩]
  | cond _ _ _ ihc iht ihe => simp [Expr.resolves, ihc, iht, ihe]

theorem Expr.exists_emitsAll {Γ : Scopes} : ∀ {es : List Expr}, es.all (·.resolves Γ) →
    ∀ n, ∃ c n', Expr.EmitsAll Γ n es c n'
  | [], _, n => ⟨_, n, .nil⟩
  | e :: es, h, n => by
    simp only [List.all_cons, Bool.and_eq_true] at h
    obtain ⟨_, n₁, he⟩ := Expr.exists_emits h.1 n
    obtain ⟨_, _, hes⟩ := exists_emitsAll h.2 n₁
    exact ⟨_, _, .cons he hes⟩

theorem Expr.EmitsAll.resolves {Γ : Scopes} {n n' : Nat} {es : List Expr} {c : List Instr}
    (h : Expr.EmitsAll Γ n es c n') : es.all (·.resolves Γ) = true := by
  induction h with
  | nil => rfl
  | cons he _ ih => rw [List.all_cons, he.resolves, ih]; rfl

theorem Expr.exists_emitsTest {Γ : Scopes} {l : String} : ∀ {o : Option Expr},
    o.all (·.resolves Γ) → ∀ n, ∃ c n', Expr.EmitsTest Γ l n o c n'
  | none, _, n => ⟨_, n, .none⟩
  | some _, h, n => by
    obtain ⟨_, _, he⟩ := Expr.exists_emits h n
    exact ⟨_, _, .some he⟩

theorem Expr.EmitsTest.resolves {Γ : Scopes} {l : String} {n n' : Nat} {o : Option Expr}
    {c : List Instr} (h : Expr.EmitsTest Γ l n o c n') : o.all (·.resolves Γ) = true := by
  cases h with
  | none => rfl
  | some he => exact he.resolves

theorem Expr.exists_emitsStore {Γ : Scopes} {e : Expr} (h : e.resolves Γ) (x : String) (t : Ty)
    (n : Nat) : ∃ c n', e.EmitsStore Γ x t n c n' := by
  obtain ⟨_, _, he⟩ := Expr.exists_emits h n
  exact ⟨_, _, .store he⟩

theorem Expr.EmitsStore.resolves {Γ : Scopes} {x : String} {t : Ty} {n n' : Nat} {e : Expr}
    {c : List Instr} (h : e.EmitsStore Γ x t n c n') : e.resolves Γ = true := by
  cases h with
  | store he => exact he.resolves

theorem ForInit.exists_emits {Γ : Scopes} {init : Option ForInit} (h : ForInit.resolves Γ init)
    (n : Nat) : ∃ c n', ForInit.Emits Γ n init c (ForInit.after Γ init) n' := by
  rcases init with _ | ⟨t, x, e⟩ | ⟨x, e⟩
  · exact ⟨_, _, .none⟩
  · simp only [resolves, Bool.and_eq_true, Bool.not_eq_true', Scopes.declaresHere,
      Option.isSome_eq_false_iff, Option.isNone_iff_eq_none] at h
    obtain ⟨_, _, he⟩ := Expr.exists_emitsStore h.1 x t n
    have hd := Scopes.declare_eq_ok (t := t).2 ⟨h.2, rfl⟩
    refine ⟨_, _, .decl he ?_⟩
    simp [after, Scopes.checkDeclare, hd]
  · simp only [resolves, Bool.and_eq_true] at h
    obtain ⟨t, ht⟩ := Option.isSome_iff_exists.1 h.1
    obtain ⟨_, _, he⟩ := Expr.exists_emitsStore h.2 x t n
    exact ⟨_, _, .assign ht he⟩

theorem ForInit.Emits.resolves {Γ Γ' : Scopes} {n n' : Nat} {init : Option ForInit}
    {c : List Instr} (h : ForInit.Emits Γ n init c Γ' n') : ForInit.resolves Γ init = true := by
  cases h with
  | none => rfl
  | decl he hd =>
    simp [ForInit.resolves, he.resolves, Scopes.declaresHere, (Scopes.declare_eq_ok.1 hd).1]
  | assign hx he => simp [ForInit.resolves, hx, he.resolves]

theorem Stmt.exists_emits_read {Γ : Scopes} {n : Nat} : ∀ {xs : List String},
    (Stmt.read xs).resolves Γ → ∃ c, Stmt.EmitsAll Γ n [.read xs] c Γ n
  | [], _ => ⟨_, .readNil⟩
  | x :: xs, h => by
    simp only [Stmt.resolves, List.all_cons, Bool.and_eq_true] at h
    obtain ⟨tag, htag⟩ := Option.isSome_iff_exists.1 h.1
    obtain ⟨t, hx, ht⟩ := Option.bind_eq_some_iff.1 htag
    obtain ⟨_, hc⟩ := exists_emits_read (show (Stmt.read xs).resolves Γ from h.2)
    exact ⟨_, .readCons hx ht hc⟩

mutual

/-- **A statement that resolves has code**, whatever labels were minted before. -/
theorem Stmt.exists_emits : ∀ {s : Stmt} {Γ : Scopes}, s.resolves Γ →
    ∀ n, ∃ c n', Stmt.EmitsAll Γ n [s] c (s.after Γ) n'
  | .decl t xs, Γ, h, n => ⟨_, n, .decl (Prod.ext rfl (List.isEmpty_iff.1 h))⟩
  | .assign x e, Γ, h, n => by
    simp only [Stmt.resolves, Bool.and_eq_true] at h
    obtain ⟨t, ht⟩ := Option.isSome_iff_exists.1 h.1
    obtain ⟨_, _, he⟩ := Expr.exists_emitsStore h.2 x t n
    exact ⟨_, _, .assign ht he⟩
  | .expr e, Γ, h, n => by
    obtain ⟨_, _, he⟩ := Expr.exists_emits h n
    exact ⟨_, _, .expr he⟩
  | .write es, Γ, h, n => by
    obtain ⟨_, _, hes⟩ := Expr.exists_emitsAll h n
    exact ⟨_, _, .write hes⟩
  | .read xs, Γ, h, n => by
    obtain ⟨_, hc⟩ := Stmt.exists_emits_read h
    exact ⟨_, n, hc⟩
  | .ifElse c t e, Γ, h, n => by
    simp only [Stmt.resolves, Bool.and_eq_true] at h
    obtain ⟨_, n₁, hc⟩ := Expr.exists_emits h.1.1 (n + 2)
    obtain ⟨_, n₂, ht⟩ := Stmt.exists_emits h.1.2 n₁
    obtain ⟨_, _, he⟩ := Stmt.exists_emitsOption h.2 n₂
    exact ⟨_, _, .ifElse hc ht he⟩
  | .whileLoop c b, Γ, h, n => by
    simp only [Stmt.resolves, Bool.and_eq_true] at h
    obtain ⟨_, n₁, hc⟩ := Expr.exists_emits h.1 (n + 2)
    obtain ⟨_, _, hb⟩ := Stmt.exists_emits h.2 n₁
    exact ⟨_, _, .whileLoop hc hb⟩
  | .forLoop init c step b, Γ, h, n => by
    simp only [Stmt.resolves, Bool.and_eq_true] at h
    obtain ⟨⟨⟨hi, hc⟩, hb⟩, hs⟩ := h
    obtain ⟨_, n₁, hi⟩ := ForInit.exists_emits hi n
    obtain ⟨_, n₂, hc⟩ := Expr.exists_emitsTest hc (n₁ + 2)
    obtain ⟨_, n₃, hb⟩ := Stmt.exists_emits hb n₂
    obtain ⟨_, _, hs⟩ := Stmt.exists_emitsOption hs n₃
    exact ⟨_, _, .forLoop hi hc hb hs⟩
  | .block ss, Γ, h, n => by
    obtain ⟨_, _, hc⟩ := Stmt.exists_emitsAll (show Stmt.resolvesAll Γ.push ss from h) n
    exact ⟨_, _, .block hc⟩

theorem Stmt.exists_emitsOption : ∀ {o : Option Stmt} {Γ : Scopes}, Stmt.resolvesOption Γ o →
    ∀ n, ∃ c n', Stmt.EmitsAll Γ n o.toList c (Stmt.afterOption Γ o) n'
  | none, _, _, n => ⟨_, n, .nil⟩
  | some _, _, h, n => Stmt.exists_emits h n

theorem Stmt.exists_emitsAll : ∀ {ss : List Stmt} {Γ : Scopes}, Stmt.resolvesAll Γ ss →
    ∀ n, ∃ c n', Stmt.EmitsAll Γ n ss c (ss.foldl Stmt.after Γ) n'
  | [], _, _, n => ⟨_, n, .nil⟩
  | s :: ss, Γ, h, n => by
    simp only [Stmt.resolvesAll, Bool.and_eq_true] at h
    obtain ⟨_, n₁, hs⟩ := Stmt.exists_emits h.1 n
    obtain ⟨_, _, hss⟩ := Stmt.exists_emitsAll h.2 n₁
    exact ⟨_, _, .cons hs hss⟩

end

theorem Stmt.resolvesAll_singleton {Γ : Scopes} {s : Stmt} :
    Stmt.resolvesAll Γ [s] = s.resolves Γ := by
  simp [resolvesAll]

theorem Stmt.resolvesOption_eq {Γ : Scopes} {o : Option Stmt} :
    Stmt.resolvesOption Γ o = Stmt.resolvesAll Γ o.toList := by
  cases o with
  | none => rfl
  | some s => exact resolvesAll_singleton.symm

theorem Stmt.EmitsAll.after_singleton {Γ Γ' : Scopes} {n n' : Nat} {s : Stmt} {c : List Instr}
    (h : Stmt.EmitsAll Γ n [s] c Γ' n') : s.after Γ = Γ' := h.after

/-- Statements with code resolve. -/
theorem Stmt.EmitsAll.resolves {Γ Γ' : Scopes} {n n' : Nat} {ss : List Stmt} {c : List Instr}
    (h : Stmt.EmitsAll Γ n ss c Γ' n') : Stmt.resolvesAll Γ ss = true := by
  induction h with
  | nil | readNil => rfl
  | cons h₁ _ ih₁ ih₂ =>
    rw [resolvesAll_singleton] at ih₁
    rw [resolvesAll, ih₁, h₁.after_singleton, ih₂]
    rfl
  | decl hd => simp [resolvesAll_singleton, Stmt.resolves, hd]
  | assign hx he => simp [resolvesAll_singleton, Stmt.resolves, hx, he.resolves]
  | expr he => rw [resolvesAll_singleton]; exact he.resolves
  | write hes => rw [resolvesAll_singleton]; exact hes.resolves
  | readCons hx ht _ ih =>
    rw [resolvesAll_singleton] at ih ⊢
    simp only [Stmt.resolves] at ih ⊢
    simp [hx, ht, ih]
  | ifElse hc ht _ iht ihe =>
    rw [resolvesAll_singleton] at iht
    simp [resolvesAll_singleton, Stmt.resolves, resolvesOption_eq, hc.resolves, iht,
      ht.after_singleton, ihe]
  | whileLoop hc _ ih =>
    rw [resolvesAll_singleton] at ih
    simp [resolvesAll_singleton, Stmt.resolves, hc.resolves, ih]
  | forLoop hi hc hb _ ihb ihs =>
    rw [resolvesAll_singleton] at ihb
    simp [resolvesAll_singleton, Stmt.resolves, resolvesOption_eq, hi.resolves, hi.after,
      hc.resolves, ihb, hb.after_singleton, ihs]
  | block _ ih => rw [resolvesAll_singleton]; exact ih

/-- **A program generates exactly if it resolves.** -/
theorem Program.gen_isOk_iff {p : Program} :
    (∃ code, p.gen = .ok code) ↔ Stmt.resolvesAll .empty p = true := by
  simp only [Program.gen_eq_ok_iff]
  constructor
  · rintro ⟨code, Γ, n, h⟩; exact h.resolves
  · intro h
    obtain ⟨code, n, hc⟩ := Stmt.exists_emitsAll h 0
    exact ⟨code, _, n, hc⟩

end StackLang
