/-
  The type system, as inductive rules.

  The rules know nothing of faults, of the sentinel type and of the order in which
  an expression is looked at.  A context is a stack of scopes, innermost first, and
  a scope gives types to the names that it declares.

  * `Expr.HasType G e t`: the expression has the type `t`;
  * `Stmt.Fits G s G'`: the statement is well typed, and leaves the scopes `G'`;
  * `Expr.hasType_iff` and `Program.check_iff_fits`: the checker, which goes on
    after a fault and stays silent about what follows from it, finds no fault
    exactly if there is a derivation.
-/
import Mathlib.Data.List.Forall2
import Mathlib.Tactic.FinCases
import StackLang.Proofs.Order
import StackLang.Proofs.Typed

namespace StackLang

/-! ## Contexts -/

/-- The types of the names that a scope declares. -/
def Decls : Type := String → Option Tag

namespace Decls

/-- The scope without declarations. -/
def empty : Decls := fun _ => none

/-- Declares one more name. -/
def add (D : Decls) (x : String) (t : Tag) : Decls := fun y => if y = x then some t else D y

end Decls

/-- A variable has the type of its innermost declaration. -/
inductive Visible : List Decls → String → Tag → Prop
  | here {D G x t} : D x = some t → Visible (D :: G) x t
  | outer {D G x t} : D x = none → Visible G x t → Visible (D :: G) x t

/-- Names are declared in order, each of them new in the scope. -/
inductive Declares (t : Ty) : Decls → List String → Decls → Prop
  | nil {D} : Declares t D [] D
  | cons {D x tag xs D'} : tag.ty = t → D x = none → Declares t (D.add x tag) xs D' →
      Declares t D (x :: xs) D'

/-! ## Rules -/

/-- The number types. -/
def Tag.IsNumber (t : Tag) : Prop := t = .int ∨ t = .float

/-- The values that a variable takes: those of its type, and ints if it is a
    float. -/
inductive Tag.Accepts : Tag → Tag → Prop
  | same {t} : Accepts t t
  | widened : Accepts .float .int

/-- The type of two branches: their own, or float for two numbers. -/
inductive Tag.Joins : Tag → Tag → Tag → Prop
  | same {t} : Joins t t t
  | numbers {l r} : l.IsNumber → r.IsNumber → l ≠ r → Joins l r .float

/-- The type of an operation with one operand. -/
inductive UnOp.Gives : UnOp → Tag → Tag → Prop
  | minus {t} : t.IsNumber → Gives .minus t t
  | not : Gives .not .bool .bool

/-- The type of an operation with two operands. -/
inductive BinOp.Gives : BinOp → Tag → Tag → Tag → Prop
  | ints {op} : op ∈ [add, sub, mul, div] → Gives op .int .int .int
  | floats {op l r} : op ∈ [add, sub, mul, div] → l.IsNumber → r.IsNumber →
      l = .float ∨ r = .float → Gives op l r .float
  | mod : Gives mod .int .int .int
  | concat : Gives concat .string .string .string
  | order {op l r} : op ∈ [less, greater] → l.IsNumber → r.IsNumber → Gives op l r .bool
  | same {op t} : op ∈ [equal, notEqual] → Gives op t t .bool
  | numbers {op l r} : op ∈ [equal, notEqual] → l.IsNumber → r.IsNumber → Gives op l r .bool
  | logic {op} : op ∈ [and, or] → Gives op .bool .bool .bool

/-- The type of an expression. -/
inductive Expr.HasType (G : List Decls) : Expr → Tag → Prop
  | lit {tag text} : HasType G (.lit tag text) tag
  | var {x t} : Visible G x t → HasType G (.var x) t
  | un {op e a t} : HasType G e a → op.Gives a t → HasType G (.un op e) t
  | bin {op l r a b t} : HasType G l a → HasType G r b → op.Gives a b t →
      HasType G (.bin op l r) t
  | cond {c l r a b t} : HasType G c .bool → HasType G l a → HasType G r b → a.Joins b t →
      HasType G (.cond c l r) t
  | paren {e t} : HasType G e t → HasType G (.paren e) t

/-- The value of the expression may be stored in the variable. -/
inductive Expr.FitsVar (G : List Decls) : String → Expr → Prop
  | store {x e t u} : Visible G x t → e.HasType G u → t.Accepts u → FitsVar G x e

/-- The first part of a `for` loop is well typed.  Its variable is new in the scope of
    the loop, and not visible in its own value. -/
inductive ForInit.Fits : List Decls → Option ForInit → List Decls → Prop
  | none {G} : Fits G none G
  | decl {D G t x e tag u} : tag.ty = t → e.HasType (D :: G) u → tag.Accepts u → D x = Option.none →
      Fits (D :: G) (some (.decl t x e)) (D.add x tag :: G)
  | assign {G x e} : e.FitsVar G x → Fits G (some (.assign x e)) G

mutual

/-- The statement is well typed in the scopes `G`, and leaves the scopes `G'`. -/
inductive Stmt.Fits : List Decls → Stmt → List Decls → Prop
  | decl {D G t xs D'} : Declares t D xs D' → Stmt.Fits (D :: G) (.decl t xs) (D' :: G)
  | assign {G x e} : e.FitsVar G x → Stmt.Fits G (.assign x e) G
  | expr {G e t} : e.HasType G t → Stmt.Fits G (.expr e) G
  | write {G es} : (∀ e ∈ es, ∃ t, e.HasType G t) → Stmt.Fits G (.write es) G
  | read {G xs} : (∀ x ∈ xs, ∃ t, Visible G x t) → Stmt.Fits G (.read xs) G
  | ifElse {G c t e G₁ G₂} : c.HasType G .bool → Stmt.Fits G t G₁ →
      Stmt.FitsAll G₁ e.toList G₂ → Stmt.Fits G (.ifElse c t e) G₂
  | whileLoop {G c b G'} : c.HasType G .bool → Stmt.Fits G b G' → Stmt.Fits G (.whileLoop c b) G'
  | forLoop {G init c step b G₁ G₂ D G'} : ForInit.Fits (.empty :: G) init G₁ →
      (∀ e ∈ c, e.HasType G₁ .bool) → Stmt.FitsAll G₁ step.toList G₂ →
      Stmt.Fits G₂ b (D :: G') → Stmt.Fits G (.forLoop init c step b) G'
  | block {G ss D G'} : Stmt.FitsAll (.empty :: G) ss (D :: G') → Stmt.Fits G (.block ss) G'

/-- The statements are well typed in order. -/
inductive Stmt.FitsAll : List Decls → List Stmt → List Decls → Prop
  | nil {G} : Stmt.FitsAll G [] G
  | cons {G s G₁ ss G₂} : Stmt.Fits G s G₁ → Stmt.FitsAll G₁ ss G₂ → Stmt.FitsAll G (s :: ss) G₂

end

/-! ## Scopes of the checker -/

/-- The checker's scopes declare what the context declares. -/
def Scopes.Matches (Γ : Scopes) (G : List Decls) : Prop :=
  List.Forall₂ (fun s D => ∀ x, s.get? x = (D x).map Tag.ty) (Γ.current :: Γ.outer) G

namespace Scopes.Matches

variable {Γ : Scopes} {D : Decls} {G : List Decls} {x : String}

theorem empty : Scopes.empty.Matches [.empty] := .cons (fun _ => rfl) .nil

theorem push (h : Γ.Matches G) : Γ.push.Matches (.empty :: G) := .cons (fun _ => rfl) h

/-- A scope that is opened and closed again. -/
theorem pop {Γ' : Scopes} (h : Γ'.Matches (D :: G)) (ho : Γ'.outer = Γ.push.outer) :
    Γ.Matches G := by
  obtain ⟨-, h⟩ := List.forall₂_cons.1 h
  rwa [ho] at h

/-- There is always a current scope. -/
theorem exists_cons (h : Γ.Matches G) : ∃ D G', G = D :: G' := by
  cases h with
  | cons _ _ => exact ⟨_, _, rfl⟩

/-- The variables in the scopes are the visible ones. -/
theorem get?_eq_some (h : Γ.Matches G) {t : Ty} :
    Γ.get? x = some t ↔ ∃ tag : Tag, tag.ty = t ∧ Visible G x tag := by
  unfold get?
  unfold Matches at h
  generalize Γ.current :: Γ.outer = ss at h ⊢
  induction h with
  | nil =>
    refine ⟨nofun, ?_⟩
    rintro ⟨tag, -, hv⟩
    cases hv
  | @cons s D ss G hs _ ih =>
    rw [List.findSome?_cons, hs x]
    cases hD : D x with
    | none =>
      refine ih.trans ⟨?_, ?_⟩
      · rintro ⟨tag, rfl, hv⟩
        exact ⟨tag, rfl, .outer hD hv⟩
      · rintro ⟨tag, rfl, hv⟩
        cases hv with
        | here hx => rw [hD] at hx; cases hx
        | outer _ hv => exact ⟨tag, rfl, hv⟩
    | some tag' =>
      constructor
      · intro ht
        exact ⟨tag', Option.some.inj ht, .here hD⟩
      · rintro ⟨tag, rfl, hv⟩
        cases hv with
        | here hx => rw [← Option.some.inj (hD.symm.trans hx)]; rfl
        | outer hx _ => rw [hD] at hx; cases hx

theorem proper (h : Γ.Matches G) : Γ.Proper := by
  intro x hx
  obtain ⟨tag, ht, -⟩ := h.get?_eq_some.1 hx
  cases tag <;> cases ht

/-- A name can be declared exactly if it is new in the current scope. -/
theorem checkDeclare_eq_nil (h : Γ.Matches (D :: G)) {t : Ty} :
    (Γ.checkDeclare x t).2 = [] ↔ D x = none := by
  obtain ⟨hD, -⟩ := List.forall₂_cons.1 h
  have hx : Γ.current.get? x = none ↔ D x = none := by rw [hD x, Option.map_eq_none_iff]
  unfold Scopes.checkDeclare
  cases hd : Γ.declare x t with
  | ok Γ' => simp [← hx, (declare_eq_ok.1 hd).1]
  | error f =>
    refine ⟨nofun, fun hnone => ?_⟩
    rw [declare_eq_ok.2 ⟨hx.2 hnone, rfl⟩] at hd
    cases hd

theorem checkDeclare (h : Γ.Matches (D :: G)) {tag : Tag} (hx : D x = none) :
    (Γ.checkDeclare x tag.ty).1.Matches (D.add x tag :: G) := by
  obtain ⟨hD, hG⟩ := List.forall₂_cons.1 h
  have hcurrent : Γ.current.get? x = none := by rw [hD x, hx]; rfl
  have hdeclare : Γ.current.declare x tag.ty = .ok ⟨(x, tag.ty) :: Γ.current.bindings⟩ :=
    Scope.declare_eq_ok.2 ⟨hcurrent, rfl⟩
  rw [Scopes.checkDeclare, declare_eq_ok.2 ⟨hcurrent, rfl⟩]
  refine .cons (fun y => ?_) hG
  rw [Scope.get?_declare hdeclare y, Decls.add]
  split
  · rfl
  · exact hD y

end Scopes.Matches

/-! ## Expressions -/

theorem Tag.ty_ne_error (t : Tag) : t.ty ≠ .error := by cases t <;> nofun

theorem Tag.isError_ty (t : Tag) : t.ty.isError = false := by cases t <;> rfl

theorem Tag.isNumeric_ty {t : Tag} : t.ty.isNumeric = true ↔ t.IsNumber := by
  cases t <;> simp [Tag.ty, Ty.isNumeric, Tag.IsNumber]

theorem Tag.ty_inj {l r : Tag} : l.ty = r.ty ↔ l = r := ⟨Tag.ty_injective, congrArg _⟩

/-! ### Operators

On operands with types, the checker is silent exactly if a rule applies. -/

theorem UnOp.faults_eq_nil {op : UnOp} {a : Tag} :
    op.faults a.ty = [] ↔ op.result a.ty ≠ .error := by
  simp [UnOp.faults, Tag.isError_ty]

theorem BinOp.faults_eq_nil {op : BinOp} {a b : Tag} :
    op.faults a.ty b.ty = [] ↔ op.result a.ty b.ty ≠ .error := by
  simp [BinOp.faults, Tag.isError_ty]

theorem UnOp.gives_iff {op : UnOp} {a t : Tag} : op.Gives a t ↔ op.result a.ty = t.ty := by
  constructor
  · rintro (⟨rfl | rfl⟩ | _) <;> rfl
  · intro h
    cases op with
    | minus =>
      by_cases hnum : a.ty.isNumeric = true
      · have ht : a.ty = t.ty := by simpa [result, Ty.negate, hnum] using h
        obtain rfl := Tag.ty_injective ht
        exact .minus (Tag.isNumeric_ty.1 hnum)
      · have ht : Ty.error = t.ty := by simpa [result, Ty.negate, hnum] using h
        exact absurd ht.symm t.ty_ne_error
    | not => cases a <;> cases t <;> first | exact .not | cases h

theorem Ty.widen_eq {a b t : Tag} : a.ty.widen b.ty = t.ty ↔
    a = .int ∧ b = .int ∧ t = .int ∨
      a.IsNumber ∧ b.IsNumber ∧ (a = .float ∨ b = .float) ∧ t = .float := by
  cases a <;> cases b <;> cases t <;> simp [Tag.ty, Ty.widen, Tag.IsNumber]

theorem Ty.relation_eq {a b t : Tag} :
    a.ty.relation b.ty = t.ty ↔ a.IsNumber ∧ b.IsNumber ∧ t = .bool := by
  cases a <;> cases b <;> cases t <;> simp [Tag.ty, Ty.relation, Ty.isNumeric, Tag.IsNumber]

theorem Ty.equality_eq {a b t : Tag} :
    a.ty.equality b.ty = t.ty ↔ (a = b ∨ a.IsNumber ∧ b.IsNumber) ∧ t = .bool := by
  cases a <;> cases b <;> cases t <;>
    simp [Tag.ty, Ty.equality, Ty.isError, Ty.isNumeric, Tag.IsNumber]

theorem BinOp.gives_iff {op : BinOp} {a b t : Tag} :
    op.Gives a b t ↔ op.result a.ty b.ty = t.ty := by
  constructor
  · intro h
    cases h with
    | ints hop => fin_cases hop <;> rfl
    | floats hop ha hb hf => fin_cases hop <;> exact Ty.widen_eq.2 (.inr ⟨ha, hb, hf, rfl⟩)
    | mod | concat => rfl
    | order hop ha hb => fin_cases hop <;> exact Ty.relation_eq.2 ⟨ha, hb, rfl⟩
    | same hop => fin_cases hop <;> exact Ty.equality_eq.2 ⟨.inl rfl, rfl⟩
    | numbers hop ha hb => fin_cases hop <;> exact Ty.equality_eq.2 ⟨.inr ⟨ha, hb⟩, rfl⟩
    | logic hop => fin_cases hop <;> rfl
  · intro h
    cases op with
    | add | sub | mul | div =>
      rcases Ty.widen_eq.1 h with ⟨rfl, rfl, rfl⟩ | ⟨ha, hb, hf, rfl⟩
      · exact .ints (by simp)
      · exact .floats (by simp) ha hb hf
    | mod => cases a <;> cases b <;> cases t <;> first | exact .mod | cases h
    | concat => cases a <;> cases b <;> cases t <;> first | exact .concat | cases h
    | less | greater =>
      obtain ⟨ha, hb, rfl⟩ := Ty.relation_eq.1 h
      exact .order (by simp) ha hb
    | equal | notEqual =>
      obtain ⟨rfl | ⟨ha, hb⟩, rfl⟩ := Ty.equality_eq.1 h
      · exact .same (by simp)
      · exact .numbers (by simp) ha hb
    | and | or => cases a <;> cases b <;> cases t <;> first | exact .logic (by simp) | cases h

theorem Tag.joins_iff {a b t : Tag} : a.Joins b t ↔ a.ty.join b.ty = t.ty := by
  constructor
  · rintro (_ | ⟨ha, hb, hne⟩)
    · simp [Ty.join, Tag.isError_ty]
    · have hjoin : a.ty.join b.ty = .float := by
        simp [Ty.join, Tag.isError_ty, Tag.ty_inj, hne, Tag.isNumeric_ty.2 ha,
          Tag.isNumeric_ty.2 hb]
      exact hjoin
  · intro h
    by_cases hab : a = b
    · subst hab
      have ht : a.ty = t.ty := by simpa [Ty.join, Tag.isError_ty] using h
      rw [← Tag.ty_injective ht]
      exact .same
    · by_cases hnum : a.ty.isNumeric = true ∧ b.ty.isNumeric = true
      · have ht : Ty.float = t.ty := by
          simpa [Ty.join, Tag.isError_ty, Tag.ty_inj, hab, hnum] using h
        obtain rfl : Tag.float = t := Tag.ty_injective ht
        exact .numbers (Tag.isNumeric_ty.1 hnum.1) (Tag.isNumeric_ty.1 hnum.2) hab
      · have ht : Ty.error = t.ty := by
          simpa [Ty.join, Tag.isError_ty, Tag.ty_inj, hab, hnum] using h
        exact absurd ht.symm t.ty_ne_error

theorem branchFaults_eq_nil {a b : Tag} :
    branchFaults a.ty b.ty = [] ↔ a.ty.join b.ty ≠ .error := by
  simp [branchFaults, Tag.isError_ty]

theorem conditionFaults_eq_nil {c : Construct} {t : Tag} :
    conditionFaults c t.ty = [] ↔ t = .bool := by
  cases t <;> simp [conditionFaults, Tag.ty, Ty.isError]

theorem Tag.accepts_iff {x : String} {t u : Tag} :
    t.Accepts u ↔ storeFaults x t.ty u.ty = [] := by
  constructor
  · rintro (_ | _) <;> simp [storeFaults, Ty.accepts, Tag.ty]
  · intro h
    cases t <;> cases u <;> first | exact .same | exact .widened | cases h

/-! ### Derivations -/

variable {Γ : Scopes} {D : Decls} {G G' : List Decls}

/-- **The checker finds the types of the rules**, and no faults, exactly where there is
    a derivation. -/
theorem Expr.hasType_iff (h : Γ.Matches G) {e : Expr} {t : Tag} :
    e.HasType G t ↔ e.faults Γ = [] ∧ e.typeOf Γ = t.ty := by
  constructor
  · intro he
    induction he with
    | lit => exact ⟨rfl, rfl⟩
    | @var x t hx =>
      have hget : Γ.get? x = some t.ty := h.get?_eq_some.2 ⟨t, rfl, hx⟩
      exact ⟨faults_var.2 ⟨_, hget⟩, by simp [typeOf, hget]⟩
    | @un op e a t _ hop ih =>
      have hres := UnOp.gives_iff.1 hop
      refine ⟨faults_un.2 ⟨ih.1, ?_⟩, ?_⟩
      · rw [ih.2, UnOp.faults_eq_nil, hres]
        exact t.ty_ne_error
      · rw [typeOf, ih.2, hres]
    | @bin op l r a b t _ _ hop ihl ihr =>
      have hres := BinOp.gives_iff.1 hop
      refine ⟨faults_bin.2 ⟨ihl.1, ihr.1, ?_⟩, ?_⟩
      · rw [ihl.2, ihr.2, BinOp.faults_eq_nil, hres]
        exact t.ty_ne_error
      · rw [typeOf, ihl.2, ihr.2, hres]
    | @cond c l r a b t _ _ _ hj ihc ihl ihr =>
      have hjoin := Tag.joins_iff.1 hj
      refine ⟨faults_cond.2 ⟨ihc.1, ?_, ihl.1, ihr.1, ?_⟩, ?_⟩
      · rw [ihc.2, conditionFaults_eq_nil]
      · rw [ihl.2, ihr.2, branchFaults_eq_nil, hjoin]
        exact t.ty_ne_error
      · rw [typeOf, ihl.2, ihr.2, hjoin]
    | paren _ ih => exact ih
  · rintro ⟨hf, ht⟩
    -- every part has a type, since an operand without one has a fault of its own
    induction e generalizing t with
    | lit tag text =>
      obtain rfl : tag = t := Tag.ty_injective ht
      exact .lit
    | var x =>
      obtain ⟨u, hu⟩ := faults_var.1 hf
      obtain ⟨tag, rfl, hx⟩ := h.get?_eq_some.1 hu
      obtain rfl : tag = t := Tag.ty_injective (by simpa [typeOf, hu] using ht)
      exact .var hx
    | un op e ih =>
      obtain ⟨he, -⟩ := faults_un.1 hf
      obtain ⟨a, ha⟩ := exists_tag h.proper he
      rw [typeOf, ha] at ht
      exact .un (ih he ha) (UnOp.gives_iff.2 ht)
    | bin op l r ihl ihr =>
      obtain ⟨hl, hr, -⟩ := faults_bin.1 hf
      obtain ⟨a, ha⟩ := exists_tag h.proper hl
      obtain ⟨b, hb⟩ := exists_tag h.proper hr
      rw [typeOf, ha, hb] at ht
      exact .bin (ihl hl ha) (ihr hr hb) (BinOp.gives_iff.2 ht)
    | cond c l r ihc ihl ihr =>
      obtain ⟨hc, hcond, hl, hr, -⟩ := faults_cond.1 hf
      obtain ⟨k, hk⟩ := exists_tag h.proper hc
      obtain ⟨a, ha⟩ := exists_tag h.proper hl
      obtain ⟨b, hb⟩ := exists_tag h.proper hr
      rw [hk, conditionFaults_eq_nil] at hcond
      subst hcond
      rw [typeOf, ha, hb] at ht
      exact .cond (ihc hc hk) (ihl hl ha) (ihr hr hb) (Tag.joins_iff.2 ht)
    | paren e ih => exact .paren (ih hf ht)

theorem Expr.exists_hasType_iff (h : Γ.Matches G) {e : Expr} :
    (∃ t, e.HasType G t) ↔ e.faults Γ = [] := by
  constructor
  · rintro ⟨t, ht⟩
    exact ((hasType_iff h).1 ht).1
  · intro he
    obtain ⟨t, ht⟩ := exists_tag h.proper he
    exact ⟨t, (hasType_iff h).2 ⟨he, ht⟩⟩

theorem Expr.hasType_bool_iff (h : Γ.Matches G) {e : Expr} {c : Construct} :
    e.HasType G .bool ↔ e.checkCondition Γ c = [] := by
  rw [checkCondition_eq_nil, hasType_iff h]
  refine and_congr_right fun he => ?_
  obtain ⟨t, ht⟩ := exists_tag h.proper he
  rw [ht, conditionFaults_eq_nil, Tag.ty_inj]

theorem Expr.fitsVar_iff (h : Γ.Matches G) {x : String} {e : Expr} :
    e.FitsVar G x ↔ Γ.checkAssign x e = [] := by
  rw [Scopes.checkAssign_eq_nil]
  constructor
  · rintro ⟨hx, he, hacc⟩
    obtain ⟨hf, ht⟩ := (hasType_iff h).1 he
    exact ⟨hf, _, h.get?_eq_some.2 ⟨_, rfl, hx⟩, by rw [ht]; exact Tag.accepts_iff.1 hacc⟩
  · rintro ⟨hf, t, hx, hs⟩
    obtain ⟨tag, rfl, hv⟩ := h.get?_eq_some.1 hx
    obtain ⟨u, hu⟩ := exists_tag h.proper hf
    rw [hu] at hs
    exact .store hv ((hasType_iff h).2 ⟨hf, hu⟩) (Tag.accepts_iff.2 hs)

/-! ## Statements -/

/-- Declarations by the rules are found in order by the checker. -/
theorem Declares.check {t : Ty} {xs : List String} {D' : Decls} (hd : Declares t D xs D')
    (h : Γ.Matches (D :: G)) : (Γ.checkDeclareAll t xs).2 = [] ∧
      (Γ.checkDeclareAll t xs).1.Matches (D' :: G) := by
  induction hd generalizing Γ with
  | nil => exact ⟨rfl, h⟩
  | @cons D x tag xs D' ht hx _ ih =>
    subst ht
    obtain ⟨hf, hm⟩ := ih (h.checkDeclare hx)
    refine ⟨?_, hm⟩
    simp only [Scopes.checkDeclareAll, h.checkDeclare_eq_nil.2 hx, hf, List.append_nil]

theorem Scopes.Matches.exists_declares {t : Ty} : ∀ {xs : List String} {Γ : Scopes} {D : Decls},
    Γ.Matches (D :: G) → ProperDecls (xs.map (·, t)) → (Γ.checkDeclareAll t xs).2 = [] →
      ∃ D', Declares t D xs D'
  | [], _, D, _, _, _ => ⟨D, .nil⟩
  | x :: xs, Γ, D, h, hd, hf => by
    simp only [Scopes.checkDeclareAll, List.append_eq_nil_iff] at hf
    have hx := h.checkDeclare_eq_nil.1 hf.1
    have ht : t ≠ .error := hd (x, t) (by simp)
    obtain ⟨tag, rfl⟩ := Ty.exists_tag ht
    obtain ⟨D', hD'⟩ := (h.checkDeclare hx).exists_declares
      (fun d hmem => hd d (List.mem_cons_of_mem _ hmem)) hf.2
    exact ⟨D', .cons rfl hx hD'⟩

theorem ForInit.Fits.check {init : Option ForInit} (hi : ForInit.Fits G init G')
    (h : Γ.Matches G) : (ForInit.checkOption Γ init).2 = [] ∧
      (ForInit.after Γ init).Matches G' := by
  cases hi with
  | none => exact ⟨rfl, h⟩
  | @decl D G t x e tag u ht he hacc hx =>
    subst ht
    obtain ⟨hf, hu⟩ := (Expr.hasType_iff h).1 he
    refine ⟨?_, h.checkDeclare hx⟩
    simp only [ForInit.checkOption, ForInit.check, e.check_fst, hu, Tag.accepts_iff.1 hacc,
      h.checkDeclare_eq_nil.2 hx, List.append_nil]
    exact hf
  | assign he => exact ⟨(Expr.fitsVar_iff h).1 he, h⟩

theorem Scopes.Matches.exists_forInit (h : Γ.Matches G) {init : Option ForInit}
    (hd : ProperDecls (ForInit.decls init)) (hf : (ForInit.checkOption Γ init).2 = []) :
    ∃ G', ForInit.Fits G init G' := by
  rcases init with _ | ⟨t, x, e⟩ | ⟨x, e⟩
  · exact ⟨G, .none⟩
  · obtain ⟨D, G, rfl⟩ := h.exists_cons
    simp only [ForInit.checkOption, ForInit.check, e.check_fst, List.append_eq_nil_iff] at hf
    obtain ⟨⟨hfe, hs⟩, hx⟩ := hf
    obtain ⟨tag, rfl⟩ := Ty.exists_tag (hd (x, t) (List.mem_singleton_self _))
    obtain ⟨u, hu⟩ := Expr.exists_tag h.proper hfe
    rw [hu] at hs
    exact ⟨_, .decl rfl ((Expr.hasType_iff h).2 ⟨hfe, hu⟩) (Tag.accepts_iff.2 hs)
      (h.checkDeclare_eq_nil.1 hx)⟩
  · exact ⟨G, .assign ((Expr.fitsVar_iff h).2 hf)⟩

mutual

/-- A statement that fits has no faults, and the checker's scopes stay those of the
    rules. -/
theorem Stmt.Fits.check : ∀ {s : Stmt} {Γ : Scopes} {G G' : List Decls}, s.Fits G G' →
    Γ.Matches G → (s.check Γ).2 = [] ∧ (s.after Γ).Matches G'
  | .decl _ _, _, _, _, .decl hd, h => hd.check h
  | .assign _ _, _, _, _, .assign he, h => ⟨(Expr.fitsVar_iff h).1 he, h⟩
  | .expr _, _, _, _, .expr he, h => ⟨((Expr.hasType_iff h).1 he).1, h⟩
  | .write es, Γ, _, _, .write hes, h => by
    refine ⟨?_, h⟩
    rw [Stmt.check, List.flatMap_eq_nil_iff]
    exact fun e he => (Expr.exists_hasType_iff h).1 (hes e he)
  | .read xs, Γ, _, _, .read hxs, h => by
    refine ⟨?_, h⟩
    rw [Stmt.check, List.flatMap_eq_nil_iff]
    intro x hx
    obtain ⟨t, ht⟩ := hxs x hx
    simp [Scopes.readFaults, h.get?_eq_some.2 ⟨t, rfl, ht⟩]
  | .ifElse c t e, Γ, _, _, .ifElse hc ht he, h => by
    obtain ⟨hft, hmt⟩ := ht.check h
    obtain ⟨hfe, hme⟩ := Stmt.FitsAll.checkOption he hmt
    refine ⟨?_, hme⟩
    simp only [Stmt.check, t.check_fst, (Expr.hasType_bool_iff h).1 hc, hft, hfe, List.append_nil]
  | .whileLoop c b, Γ, _, _, .whileLoop hc hb, h => by
    obtain ⟨hfb, hmb⟩ := hb.check h
    refine ⟨?_, hmb⟩
    simp only [Stmt.check, (Expr.hasType_bool_iff h).1 hc, hfb, List.append_nil]
  | .forLoop init c step b, Γ, _, _, .forLoop hi hc hs hb, h => by
    obtain ⟨hfi, hmi⟩ := hi.check h.push
    obtain ⟨hfs, hms⟩ := Stmt.FitsAll.checkOption hs hmi
    obtain ⟨hfb, hmb⟩ := hb.check hms
    have hfc : (c.map (·.checkCondition (ForInit.after Γ.push init) .forLoop)).getD [] = [] := by
      cases c with
      | none => rfl
      | some e => exact (Expr.hasType_bool_iff hmi).1 (hc e rfl)
    refine ⟨?_, hmb.pop (Γ := Γ) ?_⟩
    · simp only [Stmt.check, ForInit.check_fst, Stmt.checkOption_fst, hfi, hfc, hfs, hfb,
        List.append_nil]
    · rw [Stmt.after_outer, Stmt.afterOption_outer, ForInit.after_outer]
  | .block ss, Γ, _, _, .block hss, h => by
    obtain ⟨hf, hm⟩ := hss.check h.push
    exact ⟨hf, hm.pop (Stmt.checkAll_outer ss)⟩

theorem Stmt.FitsAll.checkOption : ∀ {o : Option Stmt} {Γ : Scopes} {G G' : List Decls},
    Stmt.FitsAll G o.toList G' → Γ.Matches G →
      (Stmt.checkOption Γ o).2 = [] ∧ (Stmt.afterOption Γ o).Matches G'
  | none, _, _, _, .nil, h => ⟨rfl, h⟩
  | some _, _, _, _, .cons hs .nil, h => hs.check h

theorem Stmt.FitsAll.check : ∀ {ss : List Stmt} {Γ : Scopes} {G G' : List Decls},
    Stmt.FitsAll G ss G' → Γ.Matches G →
      (Stmt.checkAll Γ ss).2 = [] ∧ (Stmt.checkAll Γ ss).1.Matches G'
  | [], _, _, _, .nil, h => ⟨rfl, h⟩
  | s :: ss, Γ, _, _, .cons hs hss, h => by
    obtain ⟨hf, hm⟩ := hs.check h
    obtain ⟨hfs, hms⟩ := hss.check hm
    simp only [Stmt.checkAll, s.check_fst, hf, hfs, List.append_nil]
    exact ⟨trivial, hms⟩

end

mutual

/-- A statement without faults fits. -/
theorem Scopes.Matches.exists_fits : ∀ {s : Stmt} {Γ : Scopes} {G : List Decls}, Γ.Matches G →
    ProperDecls s.decls → (s.check Γ).2 = [] → ∃ G', s.Fits G G'
  | .decl t xs, Γ, _, h, hd, hf => by
    obtain ⟨D, G, rfl⟩ := h.exists_cons
    obtain ⟨D', hD'⟩ := h.exists_declares hd hf
    exact ⟨_, .decl hD'⟩
  | .assign x e, Γ, G, h, _, hf => ⟨G, .assign ((Expr.fitsVar_iff h).2 hf)⟩
  | .expr e, Γ, G, h, _, hf => by
    obtain ⟨t, ht⟩ := (Expr.exists_hasType_iff h).2 hf
    exact ⟨G, .expr ht⟩
  | .write es, Γ, G, h, _, hf => by
    rw [Stmt.check, List.flatMap_eq_nil_iff] at hf
    exact ⟨G, .write fun e he => (Expr.exists_hasType_iff h).2 (hf e he)⟩
  | .read xs, Γ, G, h, _, hf => by
    rw [Stmt.check, List.flatMap_eq_nil_iff] at hf
    refine ⟨G, .read fun x hx => ?_⟩
    have hsome : Γ.get? x ≠ none := by simpa [Scopes.readFaults] using hf x hx
    obtain ⟨t, ht⟩ := Option.ne_none_iff_exists'.1 hsome
    obtain ⟨tag, -, hv⟩ := h.get?_eq_some.1 ht
    exact ⟨tag, hv⟩
  | .ifElse c t e, Γ, G, h, hd, hf => by
    simp only [Stmt.check, t.check_fst, List.append_eq_nil_iff] at hf
    obtain ⟨⟨hfc, hft⟩, hfe⟩ := hf
    obtain ⟨hdt, hde⟩ := properDecls_append.1 hd
    obtain ⟨G₁, ht⟩ := h.exists_fits hdt hft
    obtain ⟨G₂, he⟩ := (ht.check h).2.exists_fitsOption hde hfe
    exact ⟨G₂, .ifElse ((Expr.hasType_bool_iff h).2 hfc) ht he⟩
  | .whileLoop c b, Γ, G, h, hd, hf => by
    simp only [Stmt.check, List.append_eq_nil_iff] at hf
    obtain ⟨G', hb⟩ := h.exists_fits (s := b) hd hf.2
    exact ⟨G', .whileLoop ((Expr.hasType_bool_iff h).2 hf.1) hb⟩
  | .forLoop init c step b, Γ, G, h, hd, hf => by
    simp only [Stmt.check, ForInit.check_fst, Stmt.checkOption_fst, List.append_eq_nil_iff] at hf
    obtain ⟨⟨⟨hfi, hfc⟩, hfs⟩, hfb⟩ := hf
    obtain ⟨hdis, hdb⟩ := properDecls_append.1 hd
    obtain ⟨hdi, hds⟩ := properDecls_append.1 hdis
    obtain ⟨G₁, hi⟩ := h.push.exists_forInit hdi hfi
    have hm₁ := (hi.check h.push).2
    obtain ⟨G₂, hs⟩ := hm₁.exists_fitsOption hds hfs
    have hm₂ := (Stmt.FitsAll.checkOption hs hm₁).2
    obtain ⟨G₃, hb⟩ := hm₂.exists_fits hdb hfb
    obtain ⟨D, G', rfl⟩ := (hb.check hm₂).2.exists_cons
    refine ⟨G', .forLoop hi ?_ hs hb⟩
    rintro e rfl
    exact (Expr.hasType_bool_iff hm₁).2 hfc
  | .block ss, Γ, G, h, hd, hf => by
    obtain ⟨G₁, hss⟩ := h.push.exists_fitsAll hd hf
    obtain ⟨D, G', rfl⟩ := (hss.check h.push).2.exists_cons
    exact ⟨G', .block hss⟩

theorem Scopes.Matches.exists_fitsOption : ∀ {o : Option Stmt} {Γ : Scopes} {G : List Decls},
    Γ.Matches G → ProperDecls (Stmt.declsOption o) → (Stmt.checkOption Γ o).2 = [] →
      ∃ G', Stmt.FitsAll G o.toList G'
  | none, _, G, _, _, _ => ⟨G, .nil⟩
  | some s, _, _, h, hd, hf => by
    obtain ⟨G', hs⟩ := h.exists_fits hd hf
    exact ⟨G', .cons hs .nil⟩

theorem Scopes.Matches.exists_fitsAll : ∀ {ss : List Stmt} {Γ : Scopes} {G : List Decls},
    Γ.Matches G → ProperDecls (Stmt.declsAll ss) → (Stmt.checkAll Γ ss).2 = [] →
      ∃ G', Stmt.FitsAll G ss G'
  | [], _, G, _, _, _ => ⟨G, .nil⟩
  | s :: ss, Γ, G, h, hd, hf => by
    rw [Stmt.checkAll_cons_snd, List.append_eq_nil_iff] at hf
    obtain ⟨hds, hdss⟩ := properDecls_append.1 hd
    obtain ⟨G₁, hs⟩ := h.exists_fits hds hf.1
    obtain ⟨G₂, hss⟩ := (hs.check h).2.exists_fitsAll hdss hf.2
    exact ⟨G₂, .cons hs hss⟩

end

/-- **The checker decides the type system**: a program has no faults exactly if it is
    derivable by the rules, from an empty global scope. -/
theorem Program.check_iff_fits {p : Program} (hd : ProperDecls (Stmt.declsAll p)) :
    p.check.2 = [] ↔ ∃ G, Stmt.FitsAll [.empty] p G := by
  constructor
  · exact Scopes.Matches.empty.exists_fitsAll hd
  · rintro ⟨G, hp⟩
    exact (hp.check .empty).1

/-- A variable that is shadowed by that of a loop, and one that is declared twice in
    its scope. -/
theorem Program.check_iff_fits_shadowed :
    (∃ G, Stmt.FitsAll [.empty] [.decl .float ["x"],
      .forLoop (some (.decl .int "x" (.lit .int "0")))
        (some (.bin .less (.var "x") (.lit .float "2.5")))
        (some (.assign "x" (.bin .add (.var "x") (.lit .int "1"))))
        (.block [.decl .string ["x"], .write [.bin .concat (.var "x") (.lit .string "a")]]),
      .assign "x" (.lit .int "1")] G) ∧
    ¬ ∃ G, Stmt.FitsAll [.empty] [.ifElse (.lit .bool "true") (.decl .int ["x"]) none,
      .decl .float ["x"]] G := by
  constructor
  · exact (Program.check_iff_fits (by decide)).1 rfl
  · intro h
    cases (Program.check_iff_fits (by decide)).2 h

end StackLang
