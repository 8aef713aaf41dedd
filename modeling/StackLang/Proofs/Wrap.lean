/-
  Arithmetic on ints is exact modulo `2 ^ 64`.

  * `Expr.Yields e g m r`: the code of the expression `e` ends with the result `r`, in
    every program that it is a part of, if the store is `m`.  This is so exactly if the
    expression resolves and `r` is what it evaluates to (`Expr.yields_iff`), as a
    computation has one result only (`Linked.Computes.unique`);
  * `Arith` are the expressions of int literals and variables with sums, differences,
    products and the minus sign, and `Arith.value` is the number that such an expression
    denotes;
  * `Residue n v`: the 64-bit integer `v` is congruent to `n`;
  * `Expr.int_arithmetic`: the code of an `Arith` yields the residue of its value, and
    quotient and remainder give back the dividend.
-/
import Mathlib.Data.Int.ModEq
import StackLang.Proofs.Constant
import StackLang.Proofs.Fragment

namespace StackLang

/-! ## The result of a computation -/

namespace Linked

variable {W : Type} [Writer W] {p : Linked} {s t : State W} {j : Nat} {r r' : Except Fault Value}

/-- How a computation ends: behind its code with a value, or at an instruction that
    fails. -/
def Ends (p : Linked) (s : State W) (j : Nat) (t : State W) : Except Fault Value → Prop
  | .ok v => t = { s with ip := j, stack := v :: s.stack }
  | .error f => s.Inside j t ∧ ∃ i σ, p.get? t.ip = some i ∧
      p.step t = .failed { s with ip := t.ip + 1, stack := σ ++ s.stack }
        (.located t.ip i.text f)

theorem computes_iff : p.Computes s j r ↔ ∃ k t, p.Steps k s t ∧
    (∀ k' u, k' < k → p.Steps k' s u → s.Inside j u) ∧ p.Ends s j t r := by
  cases r <;> rfl

namespace Ends

theorem unique (h : p.Ends s j t r) (h' : p.Ends s j t r') : r = r' := by
  cases r with
  | ok v =>
    obtain rfl : t = _ := h
    cases r' with
    | ok v' =>
      have hstack := congrArg State.stack (show _ = _ from h')
      rw [(List.cons.inj hstack).1]
    | error f => exact absurd h'.1.2.1 (Nat.lt_irrefl j)
  | error f =>
    obtain ⟨hin, i, σ, -, hfail⟩ := h
    cases r' with
    | ok v =>
      obtain rfl : t = _ := h'
      exact absurd hin.2.1 (Nat.lt_irrefl j)
    | error f' =>
      obtain ⟨-, i', σ', -, hfail'⟩ := h'
      rw [hfail] at hfail'
      have hreport := (Step.failed.inj hfail').2
      rw [show f = f' from congrArg Report.fault hreport]

theorem le_of_steps (h : p.Ends s j t r) {k k' : Nat} {u : State W} (hk : p.Steps k s t)
    (hk' : p.Steps k' s u) (hway : ∀ k₁ u₁, k₁ < k' → p.Steps k₁ s u₁ → s.Inside j u₁) :
    k' ≤ k := by
  refine Nat.le_of_not_lt fun hlt => ?_
  cases r with
  | ok v =>
    obtain rfl : t = _ := h
    exact Nat.lt_irrefl j (hway k _ hlt hk).2.1
  | error f =>
    obtain ⟨-, i, σ, -, hfail⟩ := h
    obtain ⟨d, rfl⟩ := Nat.exists_eq_add_of_lt hlt
    obtain ⟨t', ht', hrest⟩ := Steps.split (k := k) (l := d + 1) hk'
    cases hrest with
    | step hnext _ =>
      rw [ht'.unique hk, hfail] at hnext
      cases hnext

end Ends

/-- **A computation has one result.** -/
theorem Computes.unique (h : p.Computes s j r) (h' : p.Computes s j r') : r = r' := by
  obtain ⟨k, t, hk, hway, hend⟩ := computes_iff.1 h
  obtain ⟨k', t', hk', hway', hend'⟩ := computes_iff.1 h'
  obtain rfl : k = k' :=
    Nat.le_antisymm (hend'.le_of_steps hk' hk hway) (hend.le_of_steps hk hk' hway')
  rw [hk'.unique hk] at hend'
  exact hend.unique hend'

end Linked

/-! ## What the code of an expression yields -/

/-- There is code for the expression, it links, and in every program that it is a part
    of it ends with the given result, if the store is the given one. -/
structure Expr.Yields (e : Expr) (g : GenState) (m : Store) (r : Except Fault Value) : Prop where
  generated : (e.gen g).result = .ok ()
  links : ∃ p, Code.link (e.gen g).code = .ok p
  computes : ∀ {W : Type} [Writer W] before after p (s : State W),
    Code.link (before ++ (e.gen g).code ++ after) = .ok p → s.ip = before.length →
      s.store = m → p.Computes s (s.ip + (e.gen g).code.length) r

namespace Expr

variable {e l r : Expr} {g : GenState} {m : Store} {a b : Int64}

/-- **The code of an expression yields what the expression evaluates to.** -/
theorem yields_iff {x : Except Fault Value} :
    e.Yields g m x ↔ e.resolves g.scopes = true ∧ e.eval g.scopes m.get? = x := by
  constructor
  · rintro ⟨hgen, ⟨p, hp⟩, hcomputes⟩
    obtain ⟨hemits, -⟩ := emits_of_gen (e := e) (g := g)
      (show e.gen g = ⟨(e.gen g).code, (e.gen g).state, .ok ()⟩ by rw [← hgen])
    -- alone, the code has this result and that of the evaluation
    have hp' : Code.link ([] ++ (e.gen g).code ++ []) = .ok p := by simpa using hp
    let s : State := { store := m, sink := {} }
    have heval := hemits.computes hp' (s := s) rfl
    exact ⟨hemits.resolves, heval.unique (hcomputes [] [] p s hp' rfl rfl)⟩
  · rintro ⟨hresolves, rfl⟩
    obtain ⟨c, n, hemits⟩ := exists_emits hresolves g.labels
    have hgen : e.gen g = ⟨c, ⟨g.scopes, n⟩, .ok ()⟩ := gen_of_emits hemits
    refine ⟨by rw [hgen], by rw [hgen]; exact hemits.mints.link, fun before after p s hp hs hm => ?_⟩
    rw [hgen] at hp ⊢
    rw [← hm]
    exact hemits.computes hp hs

theorem Yields.constant (c : Constant) : c.expr.Yields g m (.ok c.value) := by
  refine yields_iff.2 ⟨by rw [c.expr_eq]; rfl, ?_⟩
  rw [c.expr_eq, eval, c.ofLiteral_text]
  rfl

theorem Yields.var {x : String} {v : Value} (h : m.get? x = some v) :
    (Expr.var x).Yields g m (.ok v) := by
  refine yields_iff.2 ⟨rfl, ?_⟩
  rw [eval, h]

/-- An expression of the type int whose code yields an int. -/
structure YieldsInt (e : Expr) (g : GenState) (m : Store) (a : Int64) : Prop where
  type : e.typeOf g.scopes = .int
  yields : e.Yields g m (.ok (.int a))

namespace YieldsInt

theorem apply (op : BinOp) (ha : l.YieldsInt g m a) (hb : r.YieldsInt g m b) :
    (bin op l r).Yields g m (op.apply .int .int (.int a) (.int b)) := by
  obtain ⟨hl, ha⟩ := ha
  obtain ⟨hr, hb⟩ := hb
  obtain ⟨hl', ha⟩ := yields_iff.1 ha
  obtain ⟨hr', hb⟩ := yields_iff.1 hb
  refine yields_iff.2 ⟨?_, ?_⟩
  · simp only [resolves, hl', hr', hl, hr, Bool.true_and]
    cases op <;> rfl
  · simp only [eval, ha, hb, hl, hr]
    cases op <;> rfl

theorem bin {op : BinOp} {v : Int64} (ha : l.YieldsInt g m a) (hb : r.YieldsInt g m b)
    (htype : op.result .int .int = .int)
    (happly : op.apply .int .int (.int a) (.int b) = .ok (.int v)) :
    (bin op l r).YieldsInt g m v where
  type := by rw [typeOf, ha.type, hb.type, htype]
  yields := happly ▸ apply op ha hb

theorem minus (ha : e.YieldsInt g m a) : (un .minus e).YieldsInt g m (-a) where
  type := by rw [typeOf, ha.type]; rfl
  yields := by
    obtain ⟨ht, ha⟩ := ha
    obtain ⟨he, ha⟩ := yields_iff.1 ha
    refine yields_iff.2 ⟨he, ?_⟩
    simp only [eval, ha, ht]
    rfl

theorem paren (ha : e.YieldsInt g m a) : (paren e).YieldsInt g m a where
  type := ha.type
  yields := by
    obtain ⟨he, ha⟩ := yields_iff.1 ha.yields
    exact yields_iff.2 ⟨he, ha⟩

end YieldsInt

end Expr

/-! ## Residues -/

/-- The 64-bit integer `v` is congruent to `n`. -/
structure Residue (n v : Int) : Prop where
  low : -2 ^ 63 ≤ v
  high : v < 2 ^ 63
  modEq : v ≡ n [ZMOD 2 ^ 64]

theorem Residue.unique {n v w : Int} (hv : Residue n v) (hw : Residue n w) : v = w := by
  obtain ⟨hlow, hhigh, hv⟩ := hv
  obtain ⟨hlow', hhigh', hw⟩ := hw
  have hmod : v % 2 ^ 64 = w % 2 ^ 64 := hv.trans hw.symm
  omega

theorem residue_ofInt (n : Int) : Residue n (Int64.ofInt n).toInt where
  low := Int64.le_toInt _
  high := Int64.toInt_lt _
  modEq := by
    rw [Int64.toInt_ofInt]
    exact Int.bmod_emod

/-- The quotient and the remainder give back the dividend, also where the quotient
    overflows. -/
theorem int64_div_mul_add_mod (a b : Int64) : a / b * b + a % b = a := by
  -- the quotient is the residue of the exact one, and the remainder is exact
  have hdiv : a / b = Int64.ofInt (a.toInt.tdiv b.toInt) := by
    rw [← Int64.toInt_inj, Int64.toInt_div, Int64.toInt_ofInt]
  have hmod : a % b = Int64.ofInt (a.toInt.tmod b.toInt) := by
    rw [← Int64.toInt_mod, Int64.ofInt_toInt]
  calc a / b * b + a % b
      = Int64.ofInt (a.toInt.tdiv b.toInt * b.toInt + a.toInt.tmod b.toInt) := by
        rw [hdiv, hmod, Int64.ofInt_add, Int64.ofInt_mul, Int64.ofInt_toInt]
    _ = a := by rw [Int.tdiv_mul_add_tmod, Int64.ofInt_toInt]

/-! ## Arithmetic -/

/-- Sums, differences and products of int literals and variables. -/
inductive Arith where
  | int (n : Int64)
  | var (x : String)
  | add (l r : Arith)
  | sub (l r : Arith)
  | mul (l r : Arith)
  | neg (a : Arith)
  | paren (a : Arith)

namespace Arith

/-- The expression as a program writes it. -/
def expr : Arith → Expr
  | int n => .int n
  | var x => .var x
  | add l r => .bin .add l.expr r.expr
  | sub l r => .bin .sub l.expr r.expr
  | mul l r => .bin .mul l.expr r.expr
  | neg a => .un .minus a.expr
  | paren a => .paren a.expr

/-- The number that an expression denotes, with no bound on the size of numbers. -/
def value (ρ : String → Int64) : Arith → Int
  | int n => n.toInt
  | var x => (ρ x).toInt
  | add l r => l.value ρ + r.value ρ
  | sub l r => l.value ρ - r.value ρ
  | mul l r => l.value ρ * r.value ρ
  | neg a => -a.value ρ
  | paren a => a.value ρ

/-- The variables of the expression are declared as ints, and the store has the ints `ρ`
    for them. -/
def Bound (g : GenState) (m : Store) (ρ : String → Int64) (a : Arith) : Prop :=
  ∀ x ∈ a.expr.names, g.scopes.get? x = some .int ∧ m.get? x = some (.int (ρ x))

variable {g : GenState} {m : Store} {ρ : String → Int64}

/-- The code wraps at every operator, and yields the value wrapped once. -/
theorem yieldsInt_expr {a : Arith} (h : a.Bound g m ρ) :
    a.expr.YieldsInt g m (Int64.ofInt (a.value ρ)) := by
  induction a with
  | int n =>
    rw [value, Int64.ofInt_toInt]
    exact ⟨rfl, Expr.Yields.constant (.int n)⟩
  | var x =>
    obtain ⟨hdecl, hval⟩ := h x (List.mem_singleton.2 rfl)
    rw [value, Int64.ofInt_toInt]
    exact ⟨by rw [expr, Expr.typeOf, hdecl]; rfl, Expr.Yields.var hval⟩
  | add l r ihl ihr | sub l r ihl ihr | mul l r ihl ihr =>
    have hl := ihl fun x hx => h x (List.mem_append_left _ hx)
    have hr := ihr fun x hx => h x (List.mem_append_right _ hx)
    simp only [value, Int64.ofInt_add, Int64.ofInt_sub, Int64.ofInt_mul]
    exact hl.bin hr rfl rfl
  | neg a ih =>
    rw [value, Int64.ofInt_neg]
    exact (ih h).minus
  | paren a ih => exact (ih h).paren

end Arith

/-! ## Quotients and remainders -/

namespace Expr

variable {l r : Expr} {g : GenState} {m : Store} {a b : Int64}

/-- The test `l == (l / r) * r + l % r`. -/
def recombination (l r : Expr) : Expr :=
  bin .equal l (bin .add (bin .mul (paren (bin .div l r)) r) (bin .mod l r))

theorem yields_recombination (ha : l.YieldsInt g m a) (hb : r.YieldsInt g m b) (h0 : b ≠ 0) :
    (recombination l r).Yields g m (.ok (.bool true)) := by
  have hdiv : (bin .div l r).YieldsInt g m (a / b) := ha.bin hb rfl (if_neg h0)
  have hmod : (bin .mod l r).YieldsInt g m (a % b) := ha.bin hb rfl (if_neg h0)
  have hmul : (bin .mul (paren (bin .div l r)) r).YieldsInt g m (a / b * b) :=
    hdiv.paren.bin hb rfl rfl
  have hsum := (hmul.bin hmod rfl rfl : (bin .add _ _).YieldsInt g m (a / b * b + a % b))
  rw [int64_div_mul_add_mod] at hsum
  have hequal := ha.apply .equal hsum
  rwa [show BinOp.equal.apply .int .int (.int a) (.int a) = .ok (.bool (a == a)) from rfl,
    beq_self_eq_true] at hequal

/-- **Arithmetic on ints is exact modulo `2 ^ 64`.**  The code of an expression of int
    literals and variables with sums, differences, products and minus signs yields the one
    64-bit integer that is congruent to the number it denotes.  The quotient of two ints
    times the divisor and the remainder is equal to the dividend, whatever the two are; by
    zero there is neither a quotient nor a remainder. -/
theorem int_arithmetic (g : GenState) (m : Store) :
    (∀ (e : Arith) (ρ : String → Int64), e.Bound g m ρ → ∃ v : Int64,
      e.expr.Yields g m (.ok (.int v)) ∧ Residue (e.value ρ) v.toInt ∧
        ∀ w, Residue (e.value ρ) w → w = v.toInt) ∧
    ∀ (l r : Expr) (a b : Int64), l.YieldsInt g m a → r.YieldsInt g m b →
      (b ≠ 0 → (recombination l r).Yields g m (.ok (.bool true))) ∧
      (b = 0 → (bin .div l r).Yields g m (.error .divisionByZero) ∧
        (bin .mod l r).Yields g m (.error .divisionByZero)) := by
  refine ⟨fun e ρ h => ?_, fun l r a b ha hb => ⟨yields_recombination ha hb, ?_⟩⟩
  · have hres := residue_ofInt (e.value ρ)
    exact ⟨_, (Arith.yieldsInt_expr h).yields, hres, fun w hw => hw.unique hres⟩
  · rintro rfl
    exact ⟨ha.apply .div hb, ha.apply .mod hb⟩

/-- The sum of the greatest int and one is the least int, and the quotient of the least int
    and minus one is out of range. -/
theorem int_arithmetic_at_bounds :
    let g : GenState := { scopes := ⟨⟨[("x", .int)]⟩, []⟩ }
    let m : Store := ⟨[("x", .int Int64.maxValue)]⟩
    let e : Arith := .add (.var "x") (.int 1)
    e.Bound g m (fun _ => Int64.maxValue) ∧ e.expr.Yields g m (.ok (.int Int64.minValue)) ∧
      (recombination (int Int64.minValue) (int (-1))).Yields g m (.ok (.bool true)) ∧
      (bin .mod (var "x") (int 0)).Yields g m (.error .divisionByZero) := by
  intro g m e
  have hbound : e.Bound g m (fun _ => Int64.maxValue) := by
    intro x hx
    obtain rfl : x = "x" := List.mem_singleton.1 hx
    exact ⟨rfl, rfl⟩
  have hconst (n : Int64) : (int n).YieldsInt g m n := ⟨rfl, Yields.constant (.int n)⟩
  have hx : (var "x").YieldsInt g m Int64.maxValue := ⟨rfl, Yields.var rfl⟩
  obtain ⟨hresidue, hdivision⟩ := int_arithmetic g m
  refine ⟨hbound, ?_, (hdivision _ _ _ _ (hconst _) (hconst _)).1 (by decide),
    ((hdivision _ _ _ _ hx (hconst 0)).2 rfl).2⟩
  obtain ⟨v, hv, -, hunique⟩ := hresidue e _ hbound
  have hleast : Residue (e.value fun _ => Int64.maxValue) Int64.minValue.toInt :=
    ⟨by decide, by decide, by decide⟩
  rwa [Int64.toInt_inj.1 (hunique _ hleast)]

end Expr

end StackLang
