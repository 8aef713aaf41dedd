/-
  The height of the stack along generated code.

  * `heightEffects`: an instruction changes the height by what it takes and leaves.
    These numbers do not depend on types, and so nothing here asks for a checked
    program;
  * `Stmt.At g ss g' s i`: in the code of the statements `ss`, that of the statement
    `s` stands at the index `i`;
  * `Program.stack_level`: every index of the code of a program has one height,
    which the stack has whenever a run gets there, and which is 0 at both ends of
    every statement.
-/
import StackLang.Proofs.Flow
import StackLang.Proofs.Generate
import StackLang.Proofs.Label
import StackLang.Proofs.Replace

namespace StackLang

/-! ## The heights of instructions -/

namespace Instr

/-- The heights of the stack before and behind an instruction. -/
inductive Shifts : Instr → Nat → Nat → Prop
  | jmp {l a b} : Shifts (.named .jmp l) a b
  | shift {i h} : Shifts i (h + i.taken) (h + i.left)

namespace Shifts

variable {i : Instr} {l : String} {a b : Nat}

theorem exists_taken (h : i.Shifts a b) : ∃ k, a = k + i.taken := by
  cases h with
  | jmp => exact ⟨a, rfl⟩
  | shift => exact ⟨_, rfl⟩

theorem label_iff : Shifts (.named .label l) a b ↔ a = b := by
  refine ⟨fun h => ?_, ?_⟩
  · cases h
    rfl
  · rintro rfl
    exact shift (i := .named .label l)

theorem fjmp (h : Shifts (.named .fjmp l) a b) : a = b + 1 := by
  cases h
  rfl

end Shifts

end Instr

/-- How instructions change the height of the stack. -/
def heightEffects : Effects Nat where
  Takes := Instr.Shifts
  jmp := .jmp
  label := Instr.Shifts.label_iff
  fjmp h h' := Nat.succ.inj (h.fjmp.symm.trans h'.fjmp)

/-! ## Expressions -/

variable {Γ Γ' : Scopes} {n n' h : Nat} {c : List Instr}

namespace Flows

/-- An instruction that does not jump, at its height. -/
theorem shift {i : Instr} (hi : i.target? = none) :
    Flows heightEffects (h + i.taken) [i] (h + i.left) := .instr (Instr.Shifts.shift (i := i)) hi

theorem conversion {given wanted : Ty} :
    Flows heightEffects (h + 1) (given.conversion wanted) (h + 1) := by
  unfold Ty.conversion
  split
  · exact shift rfl
  · exact .nil

end Flows

/-- A test takes the topmost value. -/
theorem heightEffects_fjmp {l : String} : heightEffects.Takes (.named .fjmp l) (h + 1) h :=
  Instr.Shifts.shift (i := .named .fjmp l)

/-- The operations on two numbers take two values. -/
theorem BinOp.taken_of_numeric {op : BinOp} {q : Typed} (hop : op.form = .numeric q) :
    q.taken = 2 := by
  cases op <;> cases hop <;> rfl

theorem BinOp.taken_of_plain {op : BinOp} {q : Plain} (hop : op.form = .plain q) :
    q.taken = 2 ∧ q.left = 1 := by
  cases op <;> cases hop <;> exact ⟨rfl, rfl⟩

/-- **The code of an expression pushes one value.** -/
theorem Expr.Emits.flows_height {e : Expr} (he : e.Emits Γ n c n') :
    Flows heightEffects h c (h + 1) := by
  induction he generalizing h with
  | lit | var => exact .shift rfl
  | minus _ ih | not _ ih => exact ih.append (.shift rfl)
  | @plain _ op q _ _ _ _ _ _ hform _ _ ihl ihr =>
    obtain ⟨htaken, hleft⟩ := BinOp.taken_of_plain hform
    have hop : Flows heightEffects (h + q.taken) [.plain q] (h + q.left) := .shift rfl
    rw [htaken, hleft] at hop
    exact (ihl.append ihr).append hop
  | @numeric _ op q _ _ _ _ _ _ tag hform _ _ _ ihl ihr =>
    have hop : Flows heightEffects (h + q.taken) [.typed q tag] (h + 1) := .shift rfl
    rw [BinOp.taken_of_numeric hform] at hop
    exact ((ihl.append .conversion).append (ihr.append .conversion)).append hop
  | @equality _ _ neg _ _ _ _ _ _ tag _ _ _ _ ihl ihr =>
    have heq : Flows heightEffects (h + 2) [.typed .eq tag] (h + 1) := .shift rfl
    refine ((ihl.append .conversion).append (ihr.append .conversion)).append ?_
    cases neg with
    | false => exact heq
    | true => exact heq.append (.shift rfl)
  | cond _ _ _ ihc iht ihe =>
    exact .branch ihc heightEffects_fjmp (iht.append .conversion) (ihe.append .conversion)
  | paren _ ih => exact ih

theorem Expr.EmitsAll.flows_height {es : List Expr} (hes : Expr.EmitsAll Γ n es c n') :
    Flows heightEffects h c (h + es.length) := by
  induction hes generalizing h with
  | nil => exact .nil
  | @cons _ _ _ _ es _ _ he _ ih =>
    have := he.flows_height.append (ih (h := h + 1))
    rwa [Nat.add_assoc, Nat.add_comm 1] at this

theorem Expr.EmitsStore.flows_height {x : String} {t : Ty} {e : Expr}
    (he : e.EmitsStore Γ x t n c n') : Flows heightEffects h c h := by
  obtain ⟨he⟩ := he
  exact (he.flows_height.append .conversion).append (.shift rfl)

theorem ForInit.Emits.flows_height {init : Option ForInit} (hi : ForInit.Emits Γ n init c Γ' n') :
    Flows heightEffects h c h := by
  cases hi with
  | none => exact .nil
  | decl he _ => exact he.flows_height
  | assign _ he => exact he.flows_height

theorem Expr.EmitsTest.tests_height {o : Option Expr} {l : String}
    (ht : Expr.EmitsTest Γ l n o c n') : Tests heightEffects h c l := by
  cases ht with
  | none => exact .nil
  | some he => exact .fjmp he.flows_height heightEffects_fjmp

/-! ## Statements -/

open Gen

/-- What stands in front of the first branch of an `if`. -/
def Gen.ifHead (c : Expr) : Gen Unit := do
  let elseLabel ← newLabel
  let _ ← newLabel
  c.gen
  emit (.named .fjmp elseLabel)

/-- What stands in front of the body of a loop. -/
def Gen.loopHead (init : Option ForInit) (c : Option Expr) : Gen Unit := do
  ForInit.genOption init
  let startLabel ← newLabel
  let endLabel ← newLabel
  emit (.named .label startLabel)
  exitUnless endLabel c

/-- A generator inside a scope of its own. -/
def GenState.inner (g : GenState) : GenState := { g with scopes := g.scopes.push }

/-- In the code that `ss` generates from the state `g`, the code of `s` stands at the
    index `i`, and is generated from the state `g'`. -/
inductive Stmt.At : GenState → List Stmt → GenState → Stmt → Nat → Prop
  | head {g s ss} : At g (s :: ss) g s 0
  | tail {g s ss g' s' i} : At (s.gen g).state ss g' s' i →
      At g (s :: ss) g' s' ((s.gen g).code.length + i)
  | thenBody {g c t e ss g' s' i} : At (ifHead c g).state [t] g' s' i →
      At g (.ifElse c t e :: ss) g' s' ((ifHead c g).code.length + i)
  | elseBody {g c t e ss g' s' i} : At (t.gen (ifHead c g).state).state e.toList g' s' i →
      At g (.ifElse c t e :: ss) g' s'
        ((ifHead c g).code.length + (t.gen (ifHead c g).state).code.length + 2 + i)
  | whileBody {g c b ss g' s' i} : At (loopHead none (some c) g).state [b] g' s' i →
      At g (.whileLoop c b :: ss) g' s' ((loopHead none (some c) g).code.length + i)
  | forBody {g init c step b ss g' s' i} : At (loopHead init c g.inner).state [b] g' s' i →
      At g (.forLoop init c step b :: ss) g' s' ((loopHead init c g.inner).code.length + i)
  | forStep {g init c step b ss g' s' i} :
      At (b.gen (loopHead init c g.inner).state).state step.toList g' s' i →
      At g (.forLoop init c step b :: ss) g' s' ((loopHead init c g.inner).code.length +
        (b.gen (loopHead init c g.inner).state).code.length + i)
  | block {g ss ss' g' s' i} : At g.inner ss g' s' i → At g (.block ss :: ss') g' s' i

theorem Gen.ifHead_of_emits {e : Expr} (he : e.Emits Γ (n + 2) c n') :
    ifHead e ⟨Γ, n⟩ = ⟨c ++ [.named .fjmp (labelName n)], ⟨Γ, n'⟩, .ok ()⟩ := by
  simp only [ifHead, newLabel_bind]
  exact seq_eq_ok.2 ⟨_, _, _, Expr.gen_of_emits he, emit_eq_ok.2 ⟨rfl, rfl⟩, rfl⟩

theorem Gen.loopHead_of_emits {init : Option ForInit} {o : Option Expr} {ci : List Instr}
    {Γ₁ : Scopes} {n₁ : Nat} (hi : ForInit.Emits Γ n init ci Γ₁ n₁)
    (ho : Expr.EmitsTest Γ₁ (labelName (n₁ + 1)) (n₁ + 2) o c n') : loopHead init o ⟨Γ, n⟩ =
      ⟨ci ++ .named .label (labelName n₁) :: c, ⟨Γ₁, n'⟩, .ok ()⟩ := by
  refine seq_eq_ok.2 ⟨_, _, _, ForInit.gen_of_emits hi, ?_, rfl⟩
  simp only [newLabel_bind]
  exact emit_bind_eq_ok.2 ⟨_, Expr.exitUnless_of_emits ho, rfl⟩

theorem Stmt.gen_of_emits {s : Stmt} (hs : Stmt.EmitsAll Γ n [s] c Γ' n') :
    s.gen ⟨Γ, n⟩ = ⟨c, ⟨Γ', n'⟩, .ok ()⟩ := Stmt.genAll_singleton.1 (Stmt.genAll_of_emitsAll hs)

/-- The statements inside others as parts of their code.  Each of them goes from
    height 0 to height 0. -/
def Stmt.parts (g : GenState) (ss : List Stmt) : Parts Nat := fun i c x y =>
  x = 0 ∧ y = 0 ∧ ∃ g' s, Stmt.At g ss g' s i ∧ c = (s.gen g').code

/-- The parts of a statement are the statement itself and those inside it. -/
theorem FlowsVia.stmt {M : Parts Nat} {s : Stmt} (h : FlowsVia heightEffects M 0 c 0)
    (hs : Stmt.EmitsAll Γ n [s] c Γ' n')
    (hM : ∀ {g' s' i}, Stmt.At ⟨Γ, n⟩ [s] g' s' i →
      g' = ⟨Γ, n⟩ ∧ s' = s ∧ i = 0 ∨ M i (s'.gen g').code 0 0) :
    FlowsVia heightEffects (Stmt.parts ⟨Γ, n⟩ [s]) 0 c 0 := by
  refine h.whole ?_
  rintro i _ _ _ ⟨rfl, rfl, g', s', hat, rfl⟩
  rcases hM hat with ⟨rfl, rfl, rfl⟩ | hi
  · exact .inr ⟨rfl, by rw [Stmt.gen_of_emits hs], rfl, rfl⟩
  · exact .inl hi

/-- A statement that has no others inside. -/
def Stmt.isAtom : Stmt → Bool
  | .decl _ _ | .assign _ _ | .expr _ | .write _ | .read _ => true
  | .ifElse _ _ _ | .whileLoop _ _ | .forLoop _ _ _ _ | .block _ => false

theorem Stmt.At.of_atom {s s' : Stmt} {g g' : GenState} {i : Nat} (hs : s.isAtom = true)
    (h : Stmt.At g [s] g' s' i) : g' = g ∧ s' = s ∧ i = 0 := by
  cases h with
  | head => exact ⟨rfl, rfl, rfl⟩
  | tail h => cases h
  | thenBody | elseBody | whileBody | forBody | forStep | block => cases hs

theorem Stmt.At.of_cons {s s' : Stmt} {ss : List Stmt} {g g' : GenState} {i : Nat}
    (h : Stmt.At g (s :: ss) g' s' i) : Stmt.At g [s] g' s' i ∨
      ∃ j, i = (s.gen g).code.length + j ∧ Stmt.At (s.gen g).state ss g' s' j := by
  cases h with
  | head => exact .inl .head
  | tail h => exact .inr ⟨_, rfl, h⟩
  | thenBody h => exact .inl (.thenBody h)
  | elseBody h => exact .inl (.elseBody h)
  | whileBody h => exact .inl (.whileBody h)
  | forBody h => exact .inl (.forBody h)
  | forStep h => exact .inl (.forStep h)
  | block h => exact .inl (.block h)

theorem Flows.atom {s : Stmt} (h : Flows heightEffects 0 c 0) (hs : s.isAtom = true)
    (he : Stmt.EmitsAll Γ n [s] c Γ' n') :
    FlowsVia heightEffects (Stmt.parts ⟨Γ, n⟩ [s]) 0 c 0 :=
  h.via.stmt he fun hat => .inl (hat.of_atom hs)

/-- **The code of every statement goes from an empty stack to an empty stack.** -/
theorem Stmt.EmitsAll.flowsVia_height {ss : List Stmt} (hss : Stmt.EmitsAll Γ n ss c Γ' n') :
    FlowsVia heightEffects (Stmt.parts ⟨Γ, n⟩ ss) 0 c 0 := by
  have hpart {g g' : GenState} {ss : List Stmt} {s : Stmt} {i : Nat}
      (hat : Stmt.At g ss g' s i) : Stmt.parts g ss i (s.gen g').code 0 0 :=
    ⟨rfl, rfl, g', s, hat, rfl⟩
  induction hss with
  | nil =>
    refine Flows.nil.via.whole ?_
    rintro i _ _ _ ⟨-, -, g', s', hat, -⟩
    cases hat
  | cons h₁ _ ih₁ ih₂ =>
    refine (ih₁.append ih₂).whole ?_
    rintro i _ _ _ ⟨rfl, rfl, g', s', hat, rfl⟩
    rcases hat.of_cons with hs | ⟨j, rfl, hss⟩
    · exact .inl (.inl (hpart hs))
    · rw [Stmt.gen_of_emits h₁] at hss ⊢
      exact .inl (.inr ⟨j, rfl, hpart hss⟩)
  | decl hd => exact Flows.nil.atom rfl (.decl hd)
  | assign hx he => exact he.flows_height.atom rfl (.assign hx he)
  | expr he => exact (he.flows_height.append (.shift rfl)).atom rfl (.expr he)
  | @write _ _ es _ _ hes =>
    have hprint : Flows heightEffects (0 + es.length) [.print es.length] 0 := .shift rfl
    exact (hes.flows_height.append hprint).atom rfl (.write hes)
  | readNil => exact Flows.nil.atom rfl .readNil
  | @readCons _ _ x _ tag _ _ hx ht hxs ih =>
    have hread : Flows heightEffects 0 [.typed .read tag] 1 := .shift (h := 0) rfl
    have hsave : Flows heightEffects 1 [.named .save x] 0 := .shift (h := 0) rfl
    exact (hread.append (hsave.append ih.flows)).atom rfl (.readCons hx ht hxs)
  | ifElse hc ht he iht ihe =>
    refine (FlowsVia.branch hc.flows_height heightEffects_fjmp iht ihe).stmt (.ifElse hc ht he) ?_
    intro g' s' i hat
    have hhead := ifHead_of_emits hc
    cases hat with
    | head => exact .inl ⟨rfl, rfl, rfl⟩
    | tail hat => cases hat
    | thenBody hat =>
      rw [hhead] at hat ⊢
      rw [List.length_append]
      exact .inr (.inl ⟨_, rfl, hpart hat⟩)
    | elseBody hat =>
      simp only [hhead, Stmt.gen_of_emits ht] at hat ⊢
      rw [List.length_append]
      exact .inr (.inr ⟨_, rfl, hpart hat⟩)
  | @whileLoop _ n _ cc _ _ _ _ _ hc hb ih =>
    have htest : Tests heightEffects 0 (cc ++ [.named .fjmp (labelName (n + 1))]) _ :=
      .fjmp hc.flows_height heightEffects_fjmp
    have hloop := FlowsVia.loop (l := labelName n) htest ih
    have hhead := loopHead_of_emits .none (.some hc)
    simp only [List.append_assoc, List.cons_append, List.nil_append] at hloop
    refine hloop.stmt (.whileLoop hc hb) ?_
    intro g' s' i hat
    cases hat with
    | head => exact .inl ⟨rfl, rfl, rfl⟩
    | tail hat => cases hat
    | whileBody hat =>
      rw [hhead] at hat ⊢
      exact .inr ⟨_, rfl, hpart hat⟩
  | @forLoop Γ n init ci Γ₁ n₁ _ cc _ b cb _ _ step cs _ _ hi hc hb hs ihb ihs =>
    have hloop := FlowsVia.loop (l := labelName n₁) hc.tests_height (ihb.append ihs)
    have hhead := loopHead_of_emits hi hc
    simp only [List.append_assoc] at hloop
    refine (hi.flows_height.via.append hloop).stmt (.forLoop hi hc hb hs) ?_
    intro g' s' i hat
    have hlen : (ci ++ .named .label (labelName n₁) :: cc).length = ci.length + (cc.length + 1) :=
      List.length_append
    cases hat with
    | head => exact .inl ⟨rfl, rfl, rfl⟩
    | tail hat => cases hat
    | forBody hat =>
      simp only [GenState.inner, hhead, hlen, Nat.add_assoc ci.length] at hat ⊢
      exact .inr (.inr ⟨_, rfl, _, rfl, .inl (hpart hat)⟩)
    | forStep hat =>
      simp only [GenState.inner, hhead, hlen, Stmt.gen_of_emits hb] at hat ⊢
      rw [Nat.add_assoc, Nat.add_assoc ci.length]
      exact .inr (.inr ⟨_, rfl, _, rfl, .inr ⟨_, rfl, hpart hat⟩⟩)
  | block hb ih =>
    refine ih.stmt (.block hb) ?_
    intro g' s' i hat
    cases hat with
    | head => exact .inl ⟨rfl, rfl, rfl⟩
    | tail hat => cases hat
    | block hat => exact .inr (hpart hat)

/-! ## Runs -/

namespace Linked

variable {W : Type} [Writer W] {p : Linked} {s t : State W} {i : Instr} {a b : Nat}

/-- Where an instruction goes on, the height has changed by a fixed number. -/
theorem shift_of_goes (h : heightEffects.Goes i a b) :
    ∃ k, a = k + i.taken ∧ b = k + i.left := by
  unfold Effects.Goes at h
  split at h
  · exact ⟨a, rfl, h.symm⟩
  · rename_i hjmp
    cases h with
    | jmp => exact absurd rfl (hjmp _)
    | shift => exact ⟨_, rfl, rfl⟩

/-- A step with enough operands changes the height as its instruction says, or fails
    for another reason. -/
theorem step_shift {k : Nat} (hi : p.get? s.ip = some i) (hs : s.stack.length = k + i.taken) :
    (∃ t, p.step s = .next t ∧ t.stack.length = k + i.left) ∨
      ∃ t r, p.step s = .failed t r ∧ r.fault ≠ .stackUnderflow := by
  have hstack := i.replaces_execute (p := p) { s with ip := s.ip + 1 }
  cases hx : i.execute p { s with ip := s.ip + 1 } with
  | ok _ t =>
    rw [hx] at hstack
    obtain ⟨-, out, hout, ht⟩ := hstack
    obtain ⟨hle, hcount⟩ := i.taken_add_adds
    refine .inl ⟨t, step_eq_next hi hx, ?_⟩
    rw [ht, List.length_append, List.length_drop, hout]
    dsimp only
    omega
  | error f t =>
    rw [hx] at hstack
    refine .inr ⟨t, _, step_eq_failed hi hx, ?_⟩
    rcases hstack.1 with ⟨-, hlow⟩ | hrisk
    · dsimp only at hlow
      omega
    · exact hrisk.ne_stackUnderflow

theorem step_height (hi : p.get? s.ip = some i) (h : heightEffects.Goes i a b)
    (hs : s.stack.length = a) (hstep : p.step s = .next t) : t.stack.length = b := by
  obtain ⟨k, rfl, rfl⟩ := shift_of_goes h
  rcases step_shift hi hs with ⟨t', hnext, ht'⟩ | ⟨t', r, hfailed, -⟩
  · obtain rfl : t = t' := Step.next.inj (hstep.symm.trans hnext)
    exact ht'
  · rw [hstep] at hfailed
    cases hfailed

/-- The machine is at the end of its code with an empty stack, or has the operands of
    its next instruction. -/
def Ready (p : Linked) (s : State W) : Prop :=
  p.get? s.ip = none ∧ s.stack = [] ∨
    ∃ i k, p.get? s.ip = some i ∧ s.stack.length = k + i.taken

theorem Ready.fault {r : Report} (h : p.Ready s) (hf : p.step s = .failed t r) :
    r.fault ≠ .stackUnderflow := by
  rcases h with ⟨hend, -⟩ | ⟨i, k, hi, hk⟩
  · rw [step_eq_halted hend] at hf
    cases hf
  · rcases step_shift hi hk with ⟨t', hnext, -⟩ | ⟨t', r', hf', hr'⟩
    · rw [hf] at hnext
      cases hnext
    · obtain ⟨-, rfl⟩ := Step.failed.inj (hf.symm.trans hf')
      exact hr'

theorem Ready.stack_eq_nil (h : p.Ready s) (hh : p.step s = .halted) : s.stack = [] := by
  rcases h with ⟨-, hempty⟩ | ⟨i, k, hi, hk⟩
  · exact hempty
  · rcases step_shift hi hk with ⟨t', hnext, -⟩ | ⟨t', r', hf, -⟩
    · rw [hh] at hnext
      cases hnext
    · rw [hh] at hf
      cases hf

/-- The stack has its height at every index that a run gets to, operands are never
    missing, and nothing is left at the end. -/
structure Level (m : Linked) (height : Nat → Nat) (start : State W) : Prop where
  height : ∀ fuel s, m.run fuel start = (s, .unfinished) → s.stack.length = height s.ip
  fault : ∀ fuel s r, m.run fuel start = (s, .failed r) → r.fault ≠ .stackUnderflow
  done : ∀ fuel s, m.run fuel start = (s, .done) → s.stack = []

end Linked

/-- The height at an index of annotated code. -/
def heightAt (ac : List (Nat × Instr)) (i : Nat) : Nat := (ac[i]?.map Prod.fst).getD 0

theorem ShapeAt.height {ac : List (Nat × Instr)} {i k : Nat} (h : ShapeAt ac 0 i k) :
    heightAt ac i = k := by
  rcases h with ⟨j, hj⟩ | ⟨rfl, rfl⟩
  · simp [heightAt, hj]
  · simp [heightAt]

/-- Annotated code keeps its heights in every run that starts with an empty stack. -/
theorem Linked.level_of_flow {code : List Instr} {m : Linked} (hm : Code.link code = .ok m)
    {ac : List (Nat × Instr)} (hac : ac.map Prod.snd = code) (hflow : Flow heightEffects 0 ac 0)
    (hclosed : Closed heightEffects ac) {W : Type} [Writer W] (input : Input) (sink : W) :
    m.Level (heightAt ac) { input, sink } := by
  have hcode (n : Nat) : m.get? n = (ac.map Prod.snd)[n]? := by
    rw [hac]; exact Code.get?_of_link hm n
  have hreach {k : Nat} {s : State W} (hs : m.Steps k { input, sink } s) :
      ∃ h, ShapeAt ac 0 s.ip h ∧ s.stack.length = h :=
    hflow.steps hclosed (Code.exact_of_link hm) hcode
      (fun hg hv hi hstep => step_height hi hg hv hstep) hs hflow.shapeAt_zero rfl
  have hready {k : Nat} {s : State W} (hs : m.Steps k { input, sink } s) : m.Ready s := by
    obtain ⟨h, ⟨i, hi⟩ | ⟨hend, rfl⟩, hlen⟩ := hreach hs
    · obtain ⟨_, hshift, -⟩ := hflow.shapeAt_succ hi
      obtain ⟨n, rfl⟩ := hshift.exists_taken
      exact .inr ⟨i, n, by simp [hcode, hi], hlen⟩
    · exact .inl ⟨by simp [hcode, hend], List.length_eq_zero_iff.1 hlen⟩
  refine ⟨fun fuel s hrun => ?_, fun fuel s r hrun => ?_, fun fuel s hrun => ?_⟩
  · obtain ⟨h, hh, hs⟩ := hreach (run_unfinished hrun)
    rw [hs, hh.height]
  · obtain ⟨k, t, hk, hr | ⟨-, hr⟩ | ⟨u, r', hf, hr⟩⟩ := m.run_cases fuel { input, sink }
    all_goals rw [hr] at hrun
    · cases hrun
    · obtain ⟨cause, hcause⟩ := fault_of_finish (congrArg Prod.snd hrun)
      simp [hcause]
    · cases hrun
      exact (hready hk).fault hf
  · obtain ⟨k, t, hk, hr | ⟨hhalt, hr⟩ | ⟨u, r', hf, hr⟩⟩ := m.run_cases fuel { input, sink }
    all_goals rw [hr] at hrun
    · cases hrun
    · have hempty : (m.finish t).1.stack = [] := (hready hk).stack_eq_nil hhalt
      rwa [hrun] at hempty
    · cases hrun

/-- **Every index of the code of a program has one height of the stack**, whatever
    the path, the inputs and the types are: a run never lacks operands, and leaves
    the stack empty.  The stack is also empty at both ends of every statement. -/
theorem Program.stack_level {p : Program} {code : List Instr} (h : p.gen = .ok code) :
    ∃ m, Code.link code = .ok m ∧ ∃ height : Nat → Nat,
      (∀ {W : Type} [Writer W] (input : Input) (sink : W), m.Level height { input, sink }) ∧
      ∀ g s i, Stmt.At {} p g s i → m.Holds i (s.gen g).code ∧
        height i = 0 ∧ height (i + (s.gen g).code.length) = 0 := by
  obtain ⟨m, hm⟩ := p.link_of_gen h
  obtain ⟨Γ, n, hp⟩ := p.emitsAll_of_gen h
  obtain ⟨ac, hac, hflow, hclosed, hparts⟩ := hp.flowsVia_height
  refine ⟨m, hm, heightAt ac, Linked.level_of_flow hm hac hflow hclosed, ?_⟩
  intro g s i hat
  have hpart := hparts ⟨rfl, rfl, g, s, hat, rfl⟩
  obtain ⟨hstart, hend⟩ := hpart.shapeAt
  refine ⟨?_, hstart.height, hend.height⟩
  have hcode : m.Holds 0 code := fun j _ => by rw [Nat.zero_add]; exact Code.get?_of_link hm j
  obtain ⟨l, c, r, rfl, rfl, hc, -⟩ := hpart
  rw [← hac, List.map_append, List.map_append, hc] at hcode
  simpa using (Linked.holds_append.1 (Linked.holds_append.1 hcode).2).1

/-- A loop without a truth value as its condition, and an expression in it whose
    branches have different types. -/
theorem Program.stack_level_ill_typed : ∃ code m, ∃ height : Nat → Nat,
    Program.gen [.whileLoop (.lit .int "1") (.block [.decl .int ["x"],
      .expr (.cond (.var "x") (.lit .int "2") (.lit .string "s"))]), .write [.var "y"]] = .ok code ∧
    Code.link code = .ok m ∧ (∀ (input : Input) (sink : Sink), m.Level height { input, sink }) ∧
    height 3 = 0 ∧ height 11 = 0 := by
  have hgen : Program.gen [.whileLoop (.lit .int "1") (.block [.decl .int ["x"],
      .expr (.cond (.var "x") (.lit .int "2") (.lit .string "s"))]), .write [.var "y"]] =
      .ok [.named .label "L0", .push .int "1", .named .fjmp "L1", .named .load "x",
        .named .fjmp "L2", .push .int "2", .named .jmp "L3", .named .label "L2",
        .push .string "s", .named .label "L3", .plain .pop, .named .jmp "L0",
        .named .label "L1", .named .load "y", .print 1] := rfl
  obtain ⟨m, hm, height, hlevel, hat⟩ := Program.stack_level hgen
  obtain ⟨-, hstart, hend⟩ := hat _ _ _ (.whileBody (.block (.tail .head)))
  exact ⟨_, m, height, hgen, hm, hlevel, hstart, hend⟩

end StackLang
