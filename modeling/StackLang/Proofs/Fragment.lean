/-
  The code of an expression as a part of a program.

  * `Expr.Raises e f`: the faults that the evaluation of an expression can end in;
  * the value of an expression depends on the values of its variables only
    (`Expr.eval_congr`);
  * `Linked.Computes p s j r`: the machine stays in the code from the index of `s` up
    to `j`, leaves the stack of `s` and all else alone, and ends with the result `r`;
  * the code of an expression links by itself and has no instruction that stores, reads
    or prints, so that it computes its value in every program that it is a part of:
    `Expr.code_self_contained`.
-/
import StackLang.Proofs.Concur
import StackLang.Proofs.Label
import StackLang.Proofs.Place
import StackLang.Proofs.Rename

namespace StackLang

/-! ## Faults of expressions -/

/-- If the result is a fault, it is one of `P`. -/
def FailsOnly {α : Type} (P : Fault → Prop) (r : Except Fault α) : Prop :=
  ∀ f, r = .error f → P f

namespace FailsOnly

variable {α β : Type} {P : Fault → Prop}

theorem ok {a : α} : FailsOnly P (.ok a) := nofun

theorem error {f : Fault} (hf : P f) : FailsOnly P (.error f : Except Fault α) := by
  intro f' h
  cases h
  exact hf

theorem mono {Q : Fault → Prop} {r : Except Fault α} (h : FailsOnly P r)
    (hPQ : ∀ f, P f → Q f) : FailsOnly Q r := fun f hf => hPQ f (h f hf)

theorem bind {r : Except Fault α} {k : α → Except Fault β} (hr : FailsOnly P r)
    (hk : ∀ a, FailsOnly P (k a)) : FailsOnly P (r >>= k) := by
  cases r with
  | error f => exact error (hr f rfl)
  | ok a => exact hk a

theorem map {r : Except Fault α} {k : α → β} (hr : FailsOnly P r) : FailsOnly P (r.map k) := by
  cases r with
  | error f => exact error (hr f rfl)
  | ok a => exact ok

section

variable (hm : ∀ {op expected found}, P (.operandMismatch op expected found))

include hm

theorem operand {op : Opcode} {expected : Operand} {view : Value → Option α} {v : Value} :
    FailsOnly P (v.operand op expected view) := by
  unfold Value.operand
  cases view v with
  | none => exact error hm
  | some a => exact ok

theorem convert {given wanted : Ty} {v : Value} : FailsOnly P (v.convert given wanted) := by
  unfold Value.convert
  split
  · exact map (operand hm)
  · exact ok

theorem onOperands {op : Opcode} {expected : Operand} {view : Value → Option α}
    {k : α → α → Except Fault Value} (hk : ∀ a b, FailsOnly P (k a b)) {l r : Value} :
    FailsOnly P (onOperands (Value.operand op expected view) k l r) :=
  bind (operand hm) fun _ => bind (operand hm) fun _ => hk _ _

theorem onNumbers {op : Typed} {onInts : Int64 → Int64 → Except Fault Value}
    {onFloats : Float → Float → Value} (hk : ∀ a b, FailsOnly P (onInts a b)) {t : Ty}
    {l r : Value} : FailsOnly P (onNumbers op onInts onFloats t l r) := by
  unfold StackLang.onNumbers
  split
  · exact onOperands hm hk
  · exact onOperands hm fun _ _ => ok

theorem equal {t : Ty} {l r : Value} : FailsOnly P (equal t l r) := by
  unfold StackLang.equal
  cases t <;> exact onOperands hm fun _ _ => ok

theorem unary {op : UnOp} {t : Ty} {v : Value} : FailsOnly P (op.apply t v) := by
  cases op with
  | minus =>
    simp only [UnOp.apply]
    split <;> exact map (operand hm)
  | not => exact map (operand hm)

/-- Operators fail on operands of the wrong type, and by a division by zero. -/
theorem binary (hd : P .divisionByZero) {op : BinOp} {tl tr : Ty} {l r : Value} :
    FailsOnly P (op.apply tl tr l r) := by
  have hdivide (a b : Int64) : FailsOnly P (Exec.divide a b) := by
    unfold Exec.divide
    split
    · exact error hd
    · exact ok
  have hremainder (a b : Int64) : FailsOnly P (Exec.remainder a b) := by
    unfold Exec.remainder
    split
    · exact error hd
    · exact ok
  cases op with
  | add | sub | mul | less | greater => exact onNumbers hm fun _ _ => ok
  | div => exact onNumbers hm hdivide
  | mod => exact onOperands hm hremainder
  | concat | and | or => exact onOperands hm fun _ _ => ok
  | equal => exact equal hm
  | notEqual => exact bind (equal hm) fun _ => map (operand hm)

end

end FailsOnly

namespace Expr

variable {Γ : Scopes} {ρ ρ' : String → Option Value}

/-- The faults that the evaluation of an expression can end in: a variable without a
    value, a constant that denotes no value, an operand of the wrong type, a division by
    zero. -/
inductive Raises (e : Expr) : Fault → Prop
  | uninitialized {x} : x ∈ e.names → Raises e (.uninitialized x)
  | badConstant {tag text cause} : lit tag text ∈ e.parts →
      Raises e (.malformed (.badConstant tag text cause))
  | operandMismatch {op expected found} : Raises e (.operandMismatch op expected found)
  | divisionByZero : Raises e .divisionByZero

/-- The faults of a part are faults of the whole. -/
theorem Raises.mono {d e : Expr} (hn : d.names ⊆ e.names) (hp : d.parts ⊆ e.parts) (f : Fault)
    (h : d.Raises f) : e.Raises f := by
  cases h with
  | uninitialized hx => exact .uninitialized (hn hx)
  | badConstant hc => exact .badConstant (hp hc)
  | operandMismatch => exact .operandMismatch
  | divisionByZero => exact .divisionByZero

theorem Raises.ne_stackUnderflow {e : Expr} {f : Fault} (h : e.Raises f) :
    f ≠ .stackUnderflow := by
  rintro rfl
  cases h

theorem eval_failsOnly (e : Expr) : FailsOnly e.Raises (e.eval Γ ρ) := by
  induction e with
  | lit tag text =>
    simp only [eval]
    cases Value.ofLiteral tag text with
    | error cause => exact .error (.badConstant (by simp [parts]))
    | ok v => exact .ok
  | var x =>
    simp only [eval]
    cases ρ x with
    | none => exact .error (.uninitialized (by simp [names]))
    | some v => exact .ok
  | un op e ih =>
    have he := ih.mono (Raises.mono (e := un op e) (by simp [names]) (by simp [parts]))
    exact he.bind fun _ => .unary .operandMismatch
  | bin op l r ihl ihr =>
    have hl := ihl.mono (Raises.mono (e := bin op l r) (by simp [names]) (by simp [parts]))
    have hr := ihr.mono (Raises.mono (e := bin op l r) (by simp [names]) (by simp [parts]))
    have hop {a b : Value} : FailsOnly (bin op l r).Raises
        (op.apply (l.typeOf Γ) (r.typeOf Γ) a b) := .binary .operandMismatch .divisionByZero
    simp only [eval]
    cases op.mixes with
    | false => exact hl.bind fun _ => hr.bind fun _ => hop
    | true =>
      exact hl.bind fun _ => (FailsOnly.convert .operandMismatch).bind fun _ =>
        hr.bind fun _ => (FailsOnly.convert .operandMismatch).bind fun _ => hop
  | cond c t e ihc iht ihe =>
    have hc := ihc.mono (Raises.mono (e := cond c t e) (by simp [names]) (by simp [parts]))
    have ht := iht.mono (Raises.mono (e := cond c t e) (by simp [names])
      fun d hd => by simp [parts, hd])
    have he := ihe.mono (Raises.mono (e := cond c t e) (by simp [names])
      fun d hd => by simp [parts, hd])
    refine hc.bind fun _ => (FailsOnly.operand .operandMismatch).bind fun test => ?_
    cases test with
    | true => exact ht.bind fun _ => .convert .operandMismatch
    | false => exact he.bind fun _ => .convert .operandMismatch
  | paren e ih =>
    exact ih.mono (Raises.mono (e := paren e) (by simp [names]) (by simp [parts]))

/-- The value of an expression depends on the values of its variables only. -/
theorem eval_congr {e : Expr} (h : ∀ x ∈ e.names, ρ x = ρ' x) : e.eval Γ ρ = e.eval Γ ρ' := by
  induction e with
  | lit => rfl
  | var x => simp only [eval, h x (by simp [names])]
  | un op e ih => simp only [eval, ih h]
  | bin op l r ihl ihr =>
    rw [names, List.forall_mem_append] at h
    simp only [eval, ihl h.1, ihr h.2]
  | cond c t e ihc iht ihe =>
    rw [names, List.forall_mem_append, List.forall_mem_append] at h
    simp only [eval, ihc h.1.1, iht h.1.2, ihe h.2]
  | paren e ih => exact ih h

end Expr

/-! ## Instructions that change the stack only -/

/-- The instruction does not store, read or print. -/
def Instr.Pure (i : Instr) : Prop :=
  i.opcode ≠ .typed .read ∧ i.opcode ≠ .named .save ∧ i.opcode ≠ .print

namespace Instr

@[simp] theorem pure_push {tag : Tag} {text : String} : (push tag text).Pure := by
  simp [Pure, opcode]

@[simp] theorem pure_plain {op : Plain} : (plain op).Pure := by
  simp [Pure, opcode]

@[simp] theorem pure_typed {op : Typed} {tag : Tag} : (typed op tag).Pure ↔ op ≠ .read := by
  simp [Pure, opcode]

@[simp] theorem pure_named {op : Named} {x : String} : (named op x).Pure ↔ op ≠ .save := by
  simp [Pure, opcode]

end Instr

theorem Ty.pure_conversion (given wanted : Ty) : ∀ i ∈ given.conversion wanted, i.Pure := by
  unfold conversion
  split <;> simp

theorem Expr.Emits.pure {Γ : Scopes} {n n' : Nat} {e : Expr} {c : List Instr}
    (h : e.Emits Γ n c n') : ∀ i ∈ c, i.Pure := by
  have hconv := Ty.pure_conversion
  induction h with
  | lit | var => simp
  | minus _ ih | not _ ih =>
    simp only [List.forall_mem_append, List.forall_mem_singleton]
    exact ⟨ih, by simp⟩
  | plain _ _ _ ihl ihr =>
    simp only [List.forall_mem_append, List.forall_mem_singleton]
    exact ⟨⟨ihl, ihr⟩, Instr.pure_plain⟩
  | @numeric _ op _ _ _ _ _ _ _ _ hop _ _ _ ihl ihr =>
    simp only [List.forall_mem_append, List.forall_mem_singleton]
    refine ⟨⟨⟨ihl, hconv _ _⟩, ihr, hconv _ _⟩, Instr.pure_typed.2 ?_⟩
    cases op <;> cases hop <;> simp
  | @equality _ _ neg _ _ _ _ _ _ _ _ _ _ _ ihl ihr =>
    simp only [List.forall_mem_append, List.forall_mem_cons]
    refine ⟨⟨⟨ihl, hconv _ _⟩, ihr, hconv _ _⟩, by simp, ?_⟩
    cases neg <;> simp
  | cond _ _ _ ihc iht ihe =>
    simp only [List.forall_mem_append, List.forall_mem_cons]
    exact ⟨ihc, by simp, ⟨iht, hconv _ _⟩, by simp, by simp, ⟨ihe, hconv _ _⟩, by simp, by simp⟩
  | paren _ ih => exact ih

namespace Linked

variable {W : Type} [Writer W] {p : Linked} {s t : State W}

theorem step_pure {i : Instr} (hi : p.get? s.ip = some i) (hpure : i.Pure)
    (h : p.step s = .next t) : t = { s with ip := t.ip, stack := t.stack } := by
  have hR : Exec.Frame fun s t : State W => t = { s with ip := t.ip, stack := t.stack } := by
    refine ⟨fun s => rfl, ?_, fun s σ => rfl⟩
    intro s t u hst htu
    rw [htu, hst]
  obtain ⟨hread, hsave, hprint⟩ := hpure
  exact step_within hi (i.within_execute hR (fun hop => absurd hop hread)
    (fun hop => absurd hop hsave) (fun hop => absurd hop hprint) fun _ _ _ _ _ => rfl) (.inl h)

/-- Code without instructions that store, read or print changes the stack only. -/
theorem Steps.pure (hp : ∀ k i, p.get? k = some i → i.Pure) {k : Nat} (h : p.Steps k s t) :
    t = { s with ip := t.ip, stack := t.stack } := by
  induction h with
  | refl => rfl
  | @step k s u t hs _ ih =>
    cases hi : p.get? s.ip with
    | none =>
      rw [step_eq_halted hi] at hs
      cases hs
    | some i =>
      rw [ih, step_pure hi (hp _ _ hi) hs]

theorem lt_of_step {c : List Instr} (hp : Code.link c = .ok p) (h : p.step s = .next t) :
    s.ip < c.length := by
  refine Nat.lt_of_not_le fun hle => ?_
  have hnone : p.get? s.ip = none := by
    rw [Code.get?_of_link hp]
    exact List.getElem?_eq_none hle
  rw [step_eq_halted hnone] at h
  cases h

theorem Steps.unique {k : Nat} {u : State W} (ht : p.Steps k s t) (hu : p.Steps k s u) : t = u :=
  congrArg Prod.fst ((run_of_steps ht).symm.trans (run_of_steps hu))

end Linked

/-! ## Parts of programs -/

variable {W : Type}

/-- The machine is in the code from the index of `s` up to `j`, on top of the stack of
    `s`, and all else is as in `s`. -/
def State.Inside (s : State W) (j : Nat) (u : State W) : Prop :=
  s.ip ≤ u.ip ∧ u.ip < j ∧ ∃ σ, u = { s with ip := u.ip, stack := σ ++ s.stack }

/-- The machine makes some steps inside the code from the index of `s` up to `j`.  Then
    it is behind that code with one value more, or it fails at an instruction in it. -/
def Linked.Computes [Writer W] (p : Linked) (s : State W) (j : Nat) (r : Except Fault Value) :
    Prop :=
  ∃ k t, p.Steps k s t ∧ (∀ k' u, k' < k → p.Steps k' s u → s.Inside j u) ∧
    match r with
    | .ok v => t = { s with ip := j, stack := v :: s.stack }
    | .error f => s.Inside j t ∧ ∃ i σ, p.get? t.ip = some i ∧
        p.step t = .failed { s with ip := t.ip + 1, stack := σ ++ s.stack }
          (.located t.ip i.text f)

/-- A state of code that runs alone on an empty stack is, at its place, inside that
    code. -/
theorem State.inside_place {s u : State W} {j : Nat}
    (hpure : u = { s with ip := u.ip, stack := u.stack }) (hlt : u.ip < j) :
    s.Inside (s.ip + j) (u.place s.ip s.stack) := by
  refine ⟨Nat.le_add_right _ _, Nat.add_lt_add_left hlt _, u.stack, ?_⟩
  rw [hpure]
  rfl

/-- **The code of an expression computes its value in every program.** -/
theorem Expr.Emits.computes [Writer W] {Γ : Scopes} {n n' : Nat} {e : Expr}
    {c before after : List Instr} (h : e.Emits Γ n c n') {p : Linked}
    (hp : Code.link (before ++ c ++ after) = .ok p) {s : State W} (hs : s.ip = before.length) :
    p.Computes s (s.ip + c.length) (e.eval Γ s.store.get?) := by
  obtain ⟨q, hq⟩ := h.mints.link
  have hin : p.Contains s.ip q := hs ▸ Code.contains_of_link hq hp
  have hpure (k : Nat) (i : Instr) (hi : q.get? k = some i) : i.Pure := by
    rw [Code.get?_of_link hq] at hi
    exact h.pure i (List.mem_of_getElem? hi)
  -- the code by itself, from an empty stack on
  let s₀ : State W := { s with ip := 0, stack := [] }
  have hplace : s₀.place s.ip s.stack = s := rfl
  have halone : q.Leads [] s₀ (0 + c.length) ((· :: []) <$> e.eval Γ s.store.get?) :=
    h.leads (Code.exact_of_link hq) (s := s₀)
      fun j _ => by rw [show s₀.ip + j = j from Nat.zero_add j]; exact Code.get?_of_link hq j
  have hinside {k : Nat} {u : State W} (hu : q.Steps k s₀ u) (hlt : u.ip < c.length) :
      s.Inside (s.ip + c.length) (u.place s.ip s.stack) :=
    State.inside_place (s := s) ((hu.pure hpure).trans rfl) hlt
  -- all states but the last one go on by a step, and so are in front of the end
  have hway {k : Nat} {t : State W} (ht : q.Steps k s₀ t) (k' : Nat) (u : State W) (hk : k' < k)
      (hu : p.Steps k' s u) : s.Inside (s.ip + c.length) u := by
    obtain ⟨d, rfl⟩ := Nat.exists_eq_add_of_lt hk
    obtain ⟨u₀, hu₀, hrest⟩ := Linked.Steps.split (k := k') (l := d + 1) ht
    have hplaced := hin.steps (b := s.stack) hu₀
    rw [hplace] at hplaced
    rw [hu.unique hplaced]
    cases hrest with
    | step hnext _ => exact hinside hu₀ (Linked.lt_of_step hq hnext)
  rw [Nat.zero_add] at halone
  cases hr : e.eval Γ s.store.get? with
  | ok v =>
    rw [hr] at halone
    obtain ⟨-, k, hk⟩ := halone
    have hplaced := hin.steps (b := s.stack) hk
    exact ⟨k, _, hplaced, hway hk, rfl⟩
  | error f =>
    rw [hr] at halone
    obtain ⟨-, k, t, σ, r, hk, -, hlt, hfail, rfl, -⟩ := halone
    have hunder := (e.eval_failsOnly r.fault hr).ne_stackUnderflow
    obtain ⟨i, hi, hfail'⟩ := hin.step_failed (b := s.stack) hfail hunder
    exact ⟨k, _, hin.steps hk, hway hk, hinside hk hlt, i, σ, hin.get? hi, hfail'⟩

/-- **The code of an expression is a part of a program that stands on its own.**  In every
    program around it that links, and from every state at its first instruction, the
    machine stays inside it, does not touch what is on the stack below and changes nothing
    else.  It ends behind the code with the value of the expression on the stack, or fails
    inside.  Both depend on the values of the variables of the expression only. -/
theorem Expr.code_self_contained {e : Expr} {g : GenState} (h : (e.gen g).result = .ok ()) :
    (∀ {W : Type} [Writer W] before after p (s : State W),
      Code.link (before ++ (e.gen g).code ++ after) = .ok p → s.ip = before.length →
        p.Computes s (s.ip + (e.gen g).code.length) (e.eval g.scopes s.store.get?)) ∧
    (∀ ρ f, e.eval g.scopes ρ = .error f → e.Raises f) ∧
    ∀ ρ ρ', (∀ x ∈ e.names, ρ x = ρ' x) → e.eval g.scopes ρ = e.eval g.scopes ρ' := by
  have hgen : e.gen g = ⟨(e.gen g).code, (e.gen g).state, .ok ()⟩ := by rw [← h]
  obtain ⟨hemits, -⟩ := Expr.emits_of_gen hgen
  refine ⟨fun before after p s hp hs => hemits.computes hp hs, fun ρ f hf => ?_,
    fun ρ ρ' hρ => eval_congr hρ⟩
  exact e.eval_failsOnly f hf

/-- A ternary without a type in the middle of a loop, with two values on the stack: one
    branch leaves a value, the other one fails. -/
theorem Expr.code_self_contained_in_loop :
    let e : Expr := cond (var "b") (var "x") (un .not (var "b"))
    let g : GenState := { labels := 1 }
    let before : List Instr := [.named .label "L0"]
    let after : List Instr := [.plain .pop, .named .jmp "L0"]
    let s : Bool → State := fun b =>
      { ip := 1, stack := [.string "u", .string "v"], store := ⟨[("b", .bool b)]⟩, sink := {} }
    (e.gen g).result = .ok () ∧ e.typeOf g.scopes = .error ∧
      ∃ p, Code.link (before ++ (e.gen g).code ++ after) = .ok p ∧
        p.Computes (s false) 9 (.ok (.bool true)) ∧
        p.Computes (s true) 9 (.error (.uninitialized "x")) := by
  intro e g before after s
  have hgen : (e.gen g).result = .ok () := rfl
  have hcode : (e.gen g).code = [.named .load "b", .named .fjmp "L1", .named .load "x",
      .named .jmp "L2", .named .label "L1", .named .load "b", .plain .not, .named .label "L2"] := by
    simp only [e, g]
    rfl
  obtain ⟨p, hlink⟩ : ∃ p, Code.link (before ++ (e.gen g).code ++ after) = .ok p := by
    rw [hcode]
    exact Code.link_isOk_iff.2 (by decide)
  obtain ⟨hcomputes, -, -⟩ := code_self_contained hgen
  exact ⟨hgen, rfl, p, hlink, hcomputes _ _ _ (s false) hlink rfl,
    hcomputes _ _ _ (s true) hlink rfl⟩

end StackLang
