/-
  The code of an expression computes its value.

  * `Exec.Gives x b s r`: the action `x` changes the stack only, and what it makes
    of it is `r`.  If it fails, `b` is still below what is left;
  * `Linked.Leads p b s j r` says the same of the steps from the state `s` to the
    index `j`;
  * `Expr.Emits.leads`: the code of an expression leads to its value on top of
    the stack, or to its fault.
-/
import StackLang.Proofs.Emit
import StackLang.Proofs.Link
import StackLang.Proofs.Step
import StackLang.Proofs.Walk

namespace StackLang

/-! ## Actions on the stack -/

namespace Exec

variable {W : Type}

/-- What an action makes of the stack, above the values `b`. -/
def Gives (x : Exec W Unit) (b : List Value) (s : State W) : Except Fault (List Value) → Prop
  | .ok σ => x.run s = .ok () { s with stack := σ }
  | .error f => ∃ σ, x.run s = .error f { s with stack := σ } ∧ b <:+ σ

variable {α : Type} {s : State W}

theorem run_popAs (op : Opcode) (expected : Operand) (view : Value → Option α) {v : Value}
    {σ : List Value} (hs : s.stack = v :: σ) :
    (popAs op expected view).run s = match v.operand op expected view with
      | .ok a => .ok a { s with stack := σ }
      | .error f => .error f { s with stack := σ } := by
  simp only [popAs, pop, EStateM.run, bind, EStateM.bind, get, getThe, MonadStateOf.get,
    get_apply, hs, set, set_apply, pure, EStateM.pure, Value.operand]
  cases view v <;> rfl

theorem gives_unary (op : Opcode) (expected : Operand) (view : Value → Option α) (f : α → Value)
    {v : Value} {σ : List Value} (hs : s.stack = v :: σ) :
    Gives (do push (f (← popAs op expected view))) σ s
      ((· :: σ) <$> (v.operand op expected view).map f) := by
  have h := run_popAs op expected view hs
  simp only [EStateM.run] at h
  cases hv : v.operand op expected view with
  | ok a => simp only [Gives, Functor.map, Except.map, EStateM.run, bind, EStateM.bind, h, hv]; rfl
  | error e =>
    refine ⟨σ, ?_, List.suffix_refl σ⟩
    simp only [EStateM.run, bind, EStateM.bind, h, hv]

theorem gives_binary {op : Opcode} {expected : Operand} {view : Value → Option α}
    {f : α → α → Except Fault Value} {l r : Value} {σ : List Value} (hs : s.stack = r :: l :: σ) :
    Gives (binary (popAs op expected view) f) σ s
      ((· :: σ) <$> onOperands (Value.operand op expected view) f l r) := by
  have h₁ := run_popAs op expected view hs
  have h₂ := run_popAs op expected view (s := { s with stack := l :: σ }) rfl
  simp only [EStateM.run] at h₁ h₂
  cases hr : r.operand op expected view with
  | error e =>
    simp only [onOperands, hr, bind, Except.bind]
    refine ⟨l :: σ, ?_, List.suffix_cons l σ⟩
    simp only [binary, EStateM.run, bind, EStateM.bind, h₁, hr]
  | ok c =>
    cases hl : l.operand op expected view with
    | error e =>
      simp only [onOperands, hr, hl, bind, Except.bind]
      refine ⟨σ, ?_, List.suffix_refl σ⟩
      simp only [binary, EStateM.run, bind, EStateM.bind, h₁, hr, h₂, hl]
    | ok a =>
      simp only [onOperands, hr, hl, bind, Except.bind]
      cases hf : f a c with
      | ok v =>
        simp only [Gives, Functor.map, Except.map, binary, EStateM.run, bind, EStateM.bind, h₁, hr,
          h₂, hl, hf]
        rfl
      | error e =>
        refine ⟨σ, ?_, List.suffix_refl σ⟩
        simp only [binary, EStateM.run, bind, EStateM.bind, h₁, hr, h₂, hl, hf]
        rfl

theorem gives_constant {tag : Tag} {text : String} : Gives (constant tag text) s.stack s
    ((· :: s.stack) <$> (Value.ofLiteral tag text).mapError fun cause =>
      Fault.malformed (.badConstant tag text cause)) := by
  unfold constant
  cases Value.ofLiteral tag text with
  | ok v => rfl
  | error cause => exact ⟨s.stack, rfl, List.suffix_refl _⟩

theorem gives_load {p : Linked} {x : String} : Gives (named p .load x) s.stack s
    ((· :: s.stack) <$> match s.store.get? x with
      | some v => Except.ok v
      | none => .error (.uninitialized x)) := by
  cases h : s.store.get? x with
  | some v =>
    show (named p .load x).run s = _
    simp only [named, EStateM.run, bind, EStateM.bind, get, getThe, MonadStateOf.get, get_apply,
      h]
    rfl
  | none =>
    refine ⟨s.stack, ?_, List.suffix_refl _⟩
    simp only [named, EStateM.run, bind, EStateM.bind, get, getThe, MonadStateOf.get, get_apply,
      h]
    rfl

/-! ### Operators -/

theorem gives_plain {op : BinOp} {q : Plain} (hop : op.form = .plain q) {tl tr : Ty}
    {l r : Value} {σ : List Value} (hs : s.stack = r :: l :: σ) :
    Gives (plain q) σ s ((· :: σ) <$> op.apply tl tr l r) := by
  cases op <;> cases hop <;> exact gives_binary hs

theorem tag?_widen {tl tr : Ty} {tag : Tag} (h : (tl.widen tr).tag? = some tag) :
    tl.widen tr = .int ∧ tag = .int ∨ tl.widen tr = .float ∧ tag = .float := by
  cases tl <;> cases tr <;> simp_all [Ty.widen, Ty.tag?]

theorem gives_numeric {op : BinOp} {q : Typed} (hop : op.form = .numeric q) {tl tr : Ty}
    {tag : Tag} (ht : (tl.widen tr).tag? = some tag) {l r : Value} {σ : List Value}
    (hs : s.stack = r :: l :: σ) :
    Gives (typed q tag) σ s ((· :: σ) <$> op.apply tl tr l r) := by
  rcases tag?_widen ht with ⟨hw, rfl⟩ | ⟨hw, rfl⟩
  · cases op <;> cases hop <;> simp only [BinOp.apply, StackLang.onNumbers, hw, if_true] <;>
      exact gives_binary hs
  · cases op <;> cases hop <;>
      simp only [BinOp.apply, StackLang.onNumbers, hw, reduceCtorEq, if_false] <;>
      exact gives_binary hs

theorem gives_equal {t : Ty} {tag : Tag} (ht : t.tag? = some tag) {l r : Value} {σ : List Value}
    (hs : s.stack = r :: l :: σ) : Gives (typed .eq tag) σ s ((· :: σ) <$> equal t l r) := by
  cases t <;> cases ht <;> exact gives_binary hs

theorem gives_negation {v : Value} {σ : List Value} (hs : s.stack = v :: σ) :
    Gives (plain .not) σ s ((· :: σ) <$> negation v) :=
  gives_unary (.plain .not) .bool Value.toBool? (fun b => .bool (!b)) hs

theorem gives_minus {t : Ty} {v : Value} {σ : List Value} (hs : s.stack = v :: σ) :
    Gives (typed .uminus (if t = .int then .int else .float)) σ s
      ((· :: σ) <$> UnOp.minus.apply t v) := by
  simp only [UnOp.apply]
  split
  · exact gives_unary (.typed .uminus) .int Value.toInt? (fun a => .int (-a)) hs
  · exact gives_unary (.typed .uminus) .numeric Value.toFloat? (fun a => .float (-a)) hs

theorem gives_itof {v : Value} {σ : List Value} (hs : s.stack = v :: σ) :
    Gives (plain .itof) σ s ((· :: σ) <$> (v.asFloat (.plain .itof)).map Value.float) :=
  gives_unary (.plain .itof) .numeric Value.toFloat? Value.float hs

end Exec

/-! ## Steps that change the stack only -/

namespace Linked

variable {W : Type} [Writer W] {p : Linked}

/-- The steps from a state to a later index change the stack only, and what they
    make of it is given.  If they fail, they do so at an instruction on the way,
    and the values `b` are still below what is left. -/
def Leads (p : Linked) (b : List Value) (s : State W) (j : Nat) (r : Except Fault (List Value)) :
    Prop :=
  s.ip ≤ j ∧ match r with
    | .ok σ => ∃ k, p.Steps k s { s with ip := j, stack := σ }
    | .error f => ∃ k t σ r, p.Steps k s t ∧ s.ip ≤ t.ip ∧ t.ip < j ∧
        p.step t = .failed { s with ip := t.ip + 1, stack := σ } r ∧ r.fault = f ∧ b <:+ σ

namespace Leads

variable {b : List Value} {s : State W} {j j₁ : Nat}

theorem refl : p.Leads b s s.ip (.ok s.stack) := ⟨Nat.le_refl _, 0, .refl⟩

/-- One instruction. -/
theorem instr {i : Instr} {r : Except Fault (List Value)} (hi : p.get? s.ip = some i)
    (h : (i.execute p).Gives b { s with ip := s.ip + 1 } r) : p.Leads b s (s.ip + 1) r := by
  refine ⟨Nat.le_succ _, ?_⟩
  cases r with
  | ok σ => exact ⟨1, .one (step_eq_next hi h)⟩
  | error f =>
    obtain ⟨σ, hσ, hb⟩ := h
    exact ⟨0, s, σ, _, .refl, Nat.le_refl _, Nat.lt_succ_self _, step_eq_failed hi hσ, rfl, hb⟩

theorem mono {b' : List Value} {r : Except Fault (List Value)} (h : p.Leads b s j r)
    (hb : b' <:+ b) : p.Leads b' s j r := by
  refine ⟨h.1, ?_⟩
  cases r with
  | ok σ => exact h.2
  | error f =>
    obtain ⟨-, k, t, σ, r, hk, h₁, h₂, ht, hr, hσ⟩ := h
    exact ⟨k, t, σ, r, hk, h₁, h₂, ht, hr, hb.trans hσ⟩

/-- Steps behind steps that did not fail. -/
theorem of_steps {k : Nat} {σ : List Value} {r : Except Fault (List Value)}
    (h : p.Steps k s { s with ip := j₁, stack := σ }) (hle : s.ip ≤ j₁)
    (h₂ : p.Leads b { s with ip := j₁, stack := σ } j r) : p.Leads b s j r := by
  refine ⟨Nat.le_trans hle h₂.1, ?_⟩
  cases r with
  | ok σ' =>
    obtain ⟨-, k', hk'⟩ := h₂
    exact ⟨k + k', h.trans hk'⟩
  | error e =>
    obtain ⟨-, k', t, σ', r, hk', hlo, hhi, ht, hr, hσ⟩ := h₂
    exact ⟨k + k', t, σ', r, h.trans hk', Nat.le_trans hle hlo, hhi, ht, hr, hσ⟩

/-- Steps behind those that compute a value. -/
theorem bind {A : Except Fault Value} {σ : List Value} {f : Value → Except Fault (List Value)}
    (h₁ : p.Leads b s j₁ ((· :: σ) <$> A))
    (h₂ : ∀ v, p.Leads b { s with ip := j₁, stack := v :: σ } j (f v)) :
    p.Leads b s j (A >>= f) := by
  cases A with
  | ok v =>
    obtain ⟨hle, k, hk⟩ := h₁
    exact of_steps hk hle (h₂ v)
  | error e =>
    have hle' : j₁ ≤ j := (h₂ (.bool false)).1
    obtain ⟨hle, k, t, σ', r, hk, hlo, hhi, ht, hr, hσ⟩ := h₁
    exact ⟨Nat.le_trans hle hle', k, t, σ', r, hk, hlo, Nat.lt_of_lt_of_le hhi hle', ht, hr, hσ⟩

/-- Steps that leave the stack alone, behind others. -/
theorem then_steps {r : Except Fault (List Value)} (h : p.Leads b s j₁ r) (hle : j₁ ≤ j)
    (h₂ : ∀ σ, ∃ k, p.Steps k { s with ip := j₁, stack := σ } { s with ip := j, stack := σ }) :
    p.Leads b s j r := by
  refine ⟨Nat.le_trans h.1 hle, ?_⟩
  cases r with
  | ok σ =>
    obtain ⟨-, k, hk⟩ := h
    obtain ⟨k', hk'⟩ := h₂ σ
    exact ⟨k + k', hk.trans hk'⟩
  | error e =>
    obtain ⟨-, k, t, σ, r, hk, hlo, hhi, ht, hr, hσ⟩ := h
    exact ⟨k, t, σ, r, hk, hlo, Nat.lt_of_lt_of_le hhi hle, ht, hr, hσ⟩

end Leads

theorem leads_conversion {s : State W} {given wanted : Ty} {v : Value} {σ : List Value}
    (h : p.Holds s.ip (given.conversion wanted)) (hs : s.stack = v :: σ) :
    p.Leads σ s (s.ip + (given.conversion wanted).length) ((· :: σ) <$> v.convert given wanted) := by
  unfold Ty.conversion Value.convert at *
  split
  · next hc =>
    rw [if_pos hc, holds_cons] at h
    exact .instr h.1 (Exec.gives_itof hs)
  · show p.Leads σ s s.ip (.ok (v :: σ))
    rw [← hs]
    exact .refl

/-- A conversion behind the value that it converts. -/
theorem Leads.convert {s : State W} {j : Nat} {A : Except Fault Value} {given wanted : Ty}
    (h : p.Leads s.stack s j ((· :: s.stack) <$> A)) (hc : p.Holds j (given.conversion wanted)) :
    p.Leads s.stack s (j + (given.conversion wanted).length)
      ((· :: s.stack) <$> (A >>= Value.convert given wanted)) := by
  rw [map_bind]
  exact h.bind fun v => leads_conversion hc rfl

/-! ### Jumps -/

/-- A jump on false goes to its target or to the next instruction, or fails. -/
theorem step_fjmp {s : State W} {l : String} {j : Nat} {v : Value} {σ : List Value}
    (h : p.get? s.ip = some (.named .fjmp l)) (hl : p.target? l = some j) (hs : s.stack = v :: σ) :
    p.step s = match v.asBool (.named .fjmp) with
      | .ok c => .next { s with ip := if c then s.ip + 1 else j, stack := σ }
      | .error f => .failed { s with ip := s.ip + 1, stack := σ }
          (.located s.ip (Instr.named .fjmp l).text f) := by
  have hpop := Exec.run_popAs (.named .fjmp) .bool Value.toBool?
    (s := { s with ip := s.ip + 1 }) hs
  simp only [EStateM.run] at hpop
  unfold Value.asBool
  cases hv : v.operand (.named .fjmp) .bool Value.toBool? with
  | error f =>
    refine step_eq_failed h ?_
    simp only [Instr.execute, Exec.named, Exec.popBool, EStateM.run, bind, EStateM.bind, hpop, hv]
  | ok c =>
    refine step_eq_next h ?_
    simp only [Instr.execute, Exec.named, Exec.popBool, EStateM.run, bind, EStateM.bind, hpop, hv]
    cases c <;> simp [Exec.jump, hl] <;> rfl

/-- The code of two branches behind a jump on false. -/
theorem Leads.branch {s : State W} {l : String} {i j : Nat} {v : Value} {σ : List Value}
    {f : Bool → Except Fault (List Value)} (h : p.get? s.ip = some (.named .fjmp l))
    (hl : p.target? l = some i) (hs : s.stack = v :: σ) (hle : s.ip ≤ i)
    (h₁ : p.Leads σ { s with ip := s.ip + 1, stack := σ } j (f true))
    (h₂ : p.Leads σ { s with ip := i, stack := σ } j (f false)) :
    p.Leads σ s j (v.asBool (.named .fjmp) >>= f) := by
  have hstep := step_fjmp h hl hs
  cases hv : v.asBool (.named .fjmp) with
  | error e =>
    rw [hv] at hstep
    have hlt : s.ip < j := h₁.1
    exact ⟨Nat.le_of_lt hlt, 0, s, σ, _, .refl, Nat.le_refl _, hlt, hstep, rfl, List.suffix_refl σ⟩
  | ok c =>
    rw [hv] at hstep
    cases c with
    | true => exact .of_steps (.one hstep) (Nat.le_succ _) h₁
    | false => exact .of_steps (.one hstep) hle h₂

end Linked

/-! ## Expressions -/

theorem BinOp.mixes_of_form {op : BinOp} :
    (∀ q, op.form = .plain q → op.mixes = false) ∧ (∀ q, op.form = .numeric q → op.mixes = true) ∧
      ∀ b, op.form = .equality b → op.mixes = true := by
  cases op <;> simp [BinOp.form, BinOp.mixes]

theorem BinOp.apply_equality {op : BinOp} {neg : Bool} (hop : op.form = .equality neg) (tl tr : Ty)
    (l r : Value) : op.apply tl tr l r =
      StackLang.equal (tl.equalityType tr) l r >>= fun v => if neg then negation v else pure v := by
  cases op <;> cases hop
  · simp [BinOp.apply]
  · rfl

open Linked

variable {W : Type} [Writer W]

/-- **The code of an expression computes its value.** -/
theorem Expr.Emits.leads {p : Linked} (hp : p.Exact) {Γ : Scopes} {n n' : Nat} {e : Expr}
    {c : List Instr} (h : e.Emits Γ n c n') : ∀ {s : State W}, p.Holds s.ip c →
      p.Leads s.stack s (s.ip + c.length) ((· :: s.stack) <$> e.eval Γ s.store.get?) := by
  induction h with
  | lit =>
    intro s hc
    simp only [eval]
    exact .instr (holds_cons.1 hc).1 (Exec.gives_constant (s := { s with ip := s.ip + 1 }))
  | var =>
    intro s hc
    simp only [eval]
    exact .instr (holds_cons.1 hc).1 (Exec.gives_load (p := p) (s := { s with ip := s.ip + 1 }))
  | minus _ ih =>
    intro s hc
    simp only [holds_append, holds_cons] at hc
    obtain ⟨he, hi, -⟩ := hc
    simp only [eval, map_bind, List.length_append, ← Nat.add_assoc]
    refine .bind (ih he) fun v => ?_
    exact .instr hi (Exec.gives_minus rfl)
  | not _ ih =>
    intro s hc
    simp only [holds_append, holds_cons] at hc
    obtain ⟨he, hi, -⟩ := hc
    simp only [eval, map_bind, List.length_append, ← Nat.add_assoc]
    refine .bind (ih he) fun v => ?_
    exact .instr hi (Exec.gives_negation rfl)
  | plain hop _ _ ihl ihr =>
    intro s hc
    simp only [holds_append, holds_cons, List.length_append, ← Nat.add_assoc] at hc
    obtain ⟨⟨hl, hr⟩, hi, -⟩ := hc
    simp only [eval, BinOp.mixes_of_form.1 _ hop, Bool.false_eq_true, if_false, pure_bind, map_bind,
      List.length_append, ← Nat.add_assoc]
    refine .bind (ihl hl) fun a => ?_
    refine .bind ((ihr hr).mono (List.suffix_cons _ _)) fun b => ?_
    exact .instr hi (Exec.gives_plain hop rfl)
  | numeric hop _ _ ht ihl ihr =>
    intro s hc
    simp only [holds_append, holds_cons, List.length_append, ← Nat.add_assoc] at hc
    obtain ⟨⟨⟨hl, hcl⟩, hr, hcr⟩, hi, -⟩ := hc
    simp only [eval, BinOp.mixes_of_form.2.1 _ hop, if_true, map_bind, List.length_append,
      ← Nat.add_assoc]
    refine .bind (ihl hl) fun a => ?_
    refine .bind (leads_conversion hcl rfl) fun a => ?_
    refine .bind ((ihr hr).mono (List.suffix_cons _ _)) fun b => ?_
    refine .bind ((leads_conversion hcr rfl).mono (List.suffix_cons _ _)) fun b => ?_
    exact .instr hi (Exec.gives_numeric hop ht rfl)
  | @equality _ _ neg _ _ _ _ _ _ tag hop _ _ ht ihl ihr =>
    intro s hc
    simp only [holds_append, holds_cons, List.length_append, ← Nat.add_assoc] at hc
    obtain ⟨⟨⟨hl, hcl⟩, hr, hcr⟩, hi, hn⟩ := hc
    have hlen : ∀ c : List Instr, (Instr.typed .eq tag :: c).length = 1 + c.length :=
      fun c => by rw [List.length_cons, Nat.add_comm]
    simp only [eval, BinOp.mixes_of_form.2.2 _ hop, if_true, BinOp.apply_equality hop, map_bind,
      List.length_append, hlen, ← Nat.add_assoc]
    refine .bind (ihl hl) fun a => ?_
    refine .bind (leads_conversion hcl rfl) fun a => ?_
    refine .bind ((ihr hr).mono (List.suffix_cons _ _)) fun b => ?_
    refine .bind ((leads_conversion hcr rfl).mono (List.suffix_cons _ _)) fun b => ?_
    refine .bind (.instr hi (Exec.gives_equal ht rfl)) fun v => ?_
    cases neg with
    | false => exact .refl
    | true =>
      simp only [if_true, holds_cons] at hn
      exact .instr hn.1 (Exec.gives_negation rfl)
  | @cond n c cc _ t ct _ e ce _ _ _ _ ihc iht ihe =>
    intro s hc
    simp only [holds_append, holds_cons, List.length_append, ← Nat.add_assoc] at hc
    obtain ⟨hcc, hf, ⟨ht, hct⟩, hj, hle, ⟨he, hce⟩, hln, -⟩ := hc
    -- both branches lead to the index behind the last label
    generalize hE : s.ip + cc.length + 1 + ct.length +
      ((t.typeOf Γ).conversion ((t.typeOf Γ).join (e.typeOf Γ))).length + 1 + 1 + ce.length +
      ((e.typeOf Γ).conversion ((t.typeOf Γ).join (e.typeOf Γ))).length = E at hln
    generalize hL : s.ip + List.length _ = L
    obtain rfl : L = E + 1 := by
      simp only [List.length_append, List.length_cons, List.length_nil] at hL
      omega
    simp only [eval, map_bind]
    refine .bind (ihc hcc) fun v => .branch hf (hp hle) rfl (by dsimp only; omega) ?_ ?_
    · have hthen := (iht (s := { s with ip := s.ip + cc.length + 1 }) ht).convert hct
      exact hthen.then_steps (by dsimp only; omega)
        fun σ => ⟨2, .step (step_jmp hj (hp hln)) (.one (step_label hln))⟩
    · have helse := (ihe (s := { s with ip := s.ip + cc.length + 1 + ct.length +
        ((t.typeOf Γ).conversion ((t.typeOf Γ).join (e.typeOf Γ))).length + 1 + 1 }) he).convert hce
      simp only [hE] at helse
      exact .of_steps (.one (step_label hle)) (Nat.le_succ _)
        (helse.then_steps (by omega) fun σ => ⟨1, .one (step_label hln)⟩)
  | paren _ ih => exact ih

/-- The code of expressions leaves their values on the stack, the last one on
    top. -/
theorem Expr.EmitsAll.leads {p : Linked} (hp : p.Exact) {Γ : Scopes} {n n' : Nat} {es : List Expr}
    {c : List Instr} (h : Expr.EmitsAll Γ n es c n') : ∀ {s : State W}, p.Holds s.ip c →
      p.Leads s.stack s (s.ip + c.length)
        ((fun vs => vs.reverse ++ s.stack) <$> Expr.evalAll Γ s.store.get? es) := by
  induction h with
  | nil => intro s _; exact .refl
  | cons he _ ih =>
    intro s hc
    obtain ⟨hc₁, hc₂⟩ := holds_append.1 hc
    simp only [Expr.evalAll, map_bind, map_pure, List.length_append, ← Nat.add_assoc]
    refine .bind (he.leads hp hc₁) fun v => ?_
    have hrest := (ih (s := { s with ip := _, stack := v :: s.stack }) hc₂).mono
      (List.suffix_cons v s.stack)
    simpa using hrest

end StackLang
