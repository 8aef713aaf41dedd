/-
  The code of statements follows their walk.

  * `State.InWorld s w`: the machine in the state `s` has the variables, the inputs and
    the output of the world `w`;
  * `Linked.Follows p n s j r`: from the state `s` the machine goes to the index
    `j` with an empty stack in the world that the walk result `r` ends in, or it
    fails where the walk does.  Behind an unfinished walk it made at least `n`
    steps;
  * `Stmt.EmitsAll.follows`: the code of statements follows their walk.  A round
    of a loop is at least one step, so that a walk with `n` rounds left accounts
    for `n` steps.
-/
import StackLang.Proofs.Lead

namespace StackLang

variable {W : Type}

/-- A machine in a world.  A variable has the value that the machine finds under its
    name. -/
structure State.InWorld (s : State W) (w : World W) : Prop where
  vars : s.store.get? = w.vars
  inputs : s.input = .queue w.inputs
  out : s.sink = w.out

/-- A machine in a world, at an index and with a stack. -/
structure State.At (s : State W) (w : World W) (i : Nat) (σ : List Value) : Prop
    extends s.InWorld w where
  ip : s.ip = i
  stack : s.stack = σ

/-- A machine is in one world. -/
theorem State.InWorld.inj {s : State W} {w w' : World W} (h : s.InWorld w) (h' : s.InWorld w') :
    w = w' := by
  rcases w with ⟨ρ, is, k⟩
  rcases w' with ⟨ρ', is', k'⟩
  have hi : is = is' := Input.queue.inj (h.inputs.symm.trans h'.inputs)
  obtain rfl : ρ = ρ' := h.vars.symm.trans h'.vars
  obtain rfl : k = k' := h.out.symm.trans h'.out
  rw [hi]

/-- What only moves the machine and changes its stack leaves it in its world. -/
theorem State.InWorld.move {s : State W} {w : World W} (h : s.InWorld w) (i : Nat)
    (σ : List Value) : { s with ip := i, stack := σ }.At w i σ :=
  ⟨⟨h.vars, h.inputs, h.out⟩, rfl, rfl⟩

theorem State.At.jump {s : State W} {w : World W} {i : Nat} {σ : List Value} (h : s.At w i σ)
    (j : Nat) : { s with ip := j }.At w j σ :=
  ⟨⟨h.vars, h.inputs, h.out⟩, rfl, h.stack⟩

namespace Linked

variable [Writer W] {p : Linked}

/-- What the machine does from a state on is what a walk does. -/
def Follows (p : Linked) (n : Nat) (s : State W) (j : Nat) :
    EStateM.Result Stop (World W) Unit → Prop
  | .ok _ w => ∃ k t, p.Steps k s t ∧ t.At w j []
  | .error (.fault f) w => ∃ k t u r,
      p.Steps k s t ∧ p.step t = .failed u r ∧ u.InWorld w ∧ r.fault = f
  | .error .unfinished w => ∃ k t, n ≤ k ∧ p.Steps k s t ∧ t.InWorld w

namespace Follows

variable {n : Nat} {s t : State W} {i j j₁ : Nat} {w : World W}

theorem refl (h : s.At w i []) : p.Follows n s i (.ok () w) := ⟨0, s, .refl, h⟩

theorem mono {m : Nat} (hm : m ≤ n) {r : EStateM.Result Stop (World W) Unit}
    (h : p.Follows n s j r) : p.Follows m s j r := by
  rcases r with ⟨_, w⟩ | ⟨f | _, w⟩
  · exact h
  · exact h
  · obtain ⟨k, t, hk, hs⟩ := h
    exact ⟨k, t, Nat.le_trans hm hk, hs⟩

theorem of_eq {r : EStateM.Result Stop (World W) Unit} (h : p.Follows n s j₁ r) (hj : j₁ = j) :
    p.Follows n s j r := hj ▸ h

/-- Steps in front count. -/
theorem of_steps {k : Nat} (hk : p.Steps k s t) {r : EStateM.Result Stop (World W) Unit}
    (h : p.Follows n t j r) : p.Follows (k + n) s j r := by
  rcases r with ⟨_, w⟩ | ⟨f | _, w⟩
  · obtain ⟨k', u, hs, hu⟩ := h
    exact ⟨k + k', u, hk.trans hs, hu⟩
  · obtain ⟨k', t', u, r, hs, hu⟩ := h
    exact ⟨k + k', t', u, r, hk.trans hs, hu⟩
  · obtain ⟨k', u, hn, hs, hu⟩ := h
    exact ⟨k + k', u, Nat.add_le_add_left hn k, hk.trans hs, hu⟩

theorem of_step (hs : p.step s = .next t) {r : EStateM.Result Stop (World W) Unit}
    (h : p.Follows n t j r) : p.Follows n s j r :=
  (h.of_steps (.one hs)).mono (Nat.le_add_left n 1)

theorem bind {x : Walk W Unit} {f : Unit → Walk W Unit} (h₁ : p.Follows n s j₁ (x w))
    (h₂ : ∀ {w' t}, t.At w' j₁ [] → p.Follows n t j (f () w')) :
    p.Follows n s j ((x >>= f) w) := by
  simp only [Bind.bind, EStateM.bind]
  rcases hx : x w with ⟨_, w'⟩ | ⟨g | _, w'⟩
  · rw [hx] at h₁
    obtain ⟨k, t, hk, ht⟩ := h₁
    exact ((h₂ ht).of_steps hk).mono (Nat.le_add_left n k)
  · rw [hx] at h₁; exact h₁
  · rw [hx] at h₁; exact h₁

/-- Steps that leave the world alone, behind a walk. -/
theorem then_steps {r : EStateM.Result Stop (World W) Unit} (h : p.Follows n s j₁ r)
    (h₂ : ∀ t : State W, t.ip = j₁ → ∃ k, p.Steps k t { t with ip := j }) :
    p.Follows n s j r := by
  rcases r with ⟨_, w⟩ | ⟨f | _, w⟩
  · obtain ⟨k, t, hk, ht⟩ := h
    obtain ⟨k', hk'⟩ := h₂ t ht.ip
    exact ⟨k + k', _, hk.trans hk', ht.jump j⟩
  · exact h
  · exact h

/-- A walk behind a computation on the stack. -/
theorem lift {α : Type} {A : Except Fault α} {g : α → List Value} {f : α → Walk W Unit}
    {b : List Value} (hs : s.InWorld w) (h₁ : p.Leads b s j₁ (g <$> A))
    (h₂ : ∀ {a t}, A = .ok a → t.At w j₁ (g a) → p.Follows n t j (f a w)) :
    p.Follows n s j ((Walk.lift A >>= f) w) := by
  cases A with
  | ok a =>
    obtain ⟨-, k, hk⟩ := h₁
    exact ((h₂ rfl (hs.move j₁ (g a))).of_steps hk).mono (Nat.le_add_left n k)
  | error e =>
    obtain ⟨-, k, t, σ', r, hk, -, -, ht, hr, -⟩ := h₁
    exact ⟨k, t, _, r, hk, ht, (hs.move (t.ip + 1) σ').toInWorld, hr⟩

end Follows

/-! ## Instructions that act on the world -/

section

variable {n i : Nat} {s : State W} {w : World W} {x : String} {v : Value} {σ : List Value}

theorem step_save (hs : s.At w i (v :: σ)) (h : p.get? i = some (.named .save x)) :
    ∃ t, p.step s = .next t ∧ t.At (w.set x v) (i + 1) σ := by
  rcases s with ⟨ip, stack, m, inp, k⟩
  obtain ⟨⟨hvars, hin, hout⟩, rfl, rfl⟩ := hs
  refine ⟨_, step_eq_next h rfl, ⟨?_, hin, hout⟩, rfl, rfl⟩
  funext y
  rw [World.set, ← hvars]
  exact m.get?_set x y v

theorem step_pop (hs : s.At w i (v :: σ)) (h : p.get? i = some (.plain .pop)) :
    ∃ t, p.step s = .next t ∧ t.At w (i + 1) σ := by
  rcases s with ⟨ip, stack, m, inp, k⟩
  obtain ⟨hw, rfl, rfl⟩ := hs
  exact ⟨_, step_eq_next h rfl, hw.move _ _⟩

/-- Printing, whether the writer takes the line or not. -/
theorem follows_print {vs : List Value} (hs : s.At w i vs.reverse)
    (h : p.get? i = some (.print vs.length)) : p.Follows n s (i + 1) (Walk.print vs w) := by
  rcases s with ⟨ip, stack, m, inp, k⟩
  rcases w with ⟨ρ, is, out⟩
  obtain ⟨⟨hvars, hin, rfl⟩, rfl, rfl⟩ := hs
  have hline : Exec.lineOf vs.length vs.reverse = String.join (vs.map Value.text) := by
    rw [Exec.lineOf, List.take_of_length_le (by simp), List.reverse_reverse]
  have hdrop : vs.reverse.drop vs.length = [] := List.drop_eq_nil_of_le (by simp)
  have hexec := Exec.print_of_le (s := ⟨ip + 1, vs.reverse, m, inp, k⟩) (n := vs.length) (by simp)
  simp only [hline, hdrop] at hexec
  simp only [Walk.print, bind, EStateM.bind, get, getThe, MonadStateOf.get, get_apply]
  rcases hw : Writer.write k (String.join (vs.map Value.text) ++ "\n") with ⟨cause | _, k'⟩
  · rw [hw] at hexec
    exact ⟨0, _, _, _, .refl, step_eq_failed h hexec, ⟨hvars, hin, rfl⟩, rfl⟩
  · rw [hw] at hexec
    exact .of_step (step_eq_next h hexec) (.refl ⟨⟨hvars, hin, rfl⟩, rfl, rfl⟩)

/-- Reading a variable. -/
theorem follows_read {tag : Tag} (hs : s.At w i [])
    (hr : p.get? i = some (.typed .read tag)) (hsave : p.get? (i + 1) = some (.named .save x)) :
    p.Follows n s (i + 1 + 1) ((Walk.read tag >>= Walk.assign x) w) := by
  rcases s with ⟨ip, stack, m, inp, k⟩
  rcases w with ⟨ρ, _ | ⟨text, rest⟩, out⟩
  · obtain ⟨⟨hvars, rfl, hout⟩, rfl, rfl⟩ := hs
    exact ⟨0, _, _, _, .refl, step_eq_failed hr rfl, ⟨hvars, rfl, hout⟩, rfl⟩
  · obtain ⟨⟨hvars, rfl, hout⟩, rfl, rfl⟩ := hs
    cases hv : Value.read tag text with
    | ok v =>
      have hread : p.step ⟨ip, [], m, .queue (text :: rest), k⟩ =
          .next ⟨ip + 1, [v], m, .queue rest, k⟩ := by
        refine step_eq_next hr ?_
        simp only [Instr.execute, Exec.typed, EStateM.run, Exec.read_eq, Input.next, hv]
      have hwalk : (Walk.read tag >>= Walk.assign x) ⟨ρ, text :: rest, out⟩ =
          .ok () (World.set ⟨ρ, rest, out⟩ x v) := by
        simp only [Walk.read, bind, EStateM.bind, get, getThe, MonadStateOf.get, get_apply, set,
          set_apply, hv]
        rfl
      rw [hwalk]
      have hat : State.At ⟨ip + 1, [v], m, .queue rest, k⟩ ⟨ρ, rest, out⟩ (ip + 1) [v] :=
        ⟨⟨hvars, rfl, hout⟩, rfl, rfl⟩
      obtain ⟨t, ht, hatt⟩ := step_save hat hsave
      exact .of_step hread (.of_step ht (.refl hatt))
    | error e =>
      have hread : p.step ⟨ip, [], m, .queue (text :: rest), k⟩ =
          .failed ⟨ip + 1, [], m, .queue rest, k⟩
            (.located ip (Instr.typed .read tag).text (.badInput text tag)) := by
        refine step_eq_failed hr ?_
        simp only [Instr.execute, Exec.typed, EStateM.run, Exec.read_eq, Input.next, hv]
      have hwalk : (Walk.read tag >>= Walk.assign x) ⟨ρ, text :: rest, out⟩ =
          .error (.fault (.badInput text tag)) ⟨ρ, rest, out⟩ := by
        simp only [Walk.read, bind, EStateM.bind, get, getThe, MonadStateOf.get, get_apply, set,
          set_apply, hv]
        rfl
      rw [hwalk]
      exact ⟨0, _, _, _, .refl, hread, ⟨hvars, rfl, hout⟩, rfl⟩

end

/-- A loop between two labels: at `a` its rounds start, at `z` they end and the
    machine goes back, and `e` is the way out. -/
theorem follows_loop (hp : p.Exact) {n a b z e : Nat} {l l' : String} (test : Walk W Bool)
    {body : Walk W Unit} (ha : p.get? a = some (.named .label l))
    (hz : p.get? z = some (.named .jmp l)) (he : p.get? e = some (.named .label l'))
    (htest : ∀ {m j w s} {f : Bool → Walk W Unit}, s.At w (a + 1) [] →
      (∀ {t}, t.At w b [] → p.Follows m t j (f true w)) →
      (∀ {t}, t.At w e [] → p.Follows m t j (f false w)) → p.Follows m s j ((test >>= f) w))
    (hbody : ∀ {w s}, s.At w b [] → p.Follows n s z (body w)) :
    ∀ {m}, m ≤ n → ∀ {w s}, s.At w a [] → p.Follows m s (e + 1) (Walk.loop test body m w) := by
  intro m
  induction m with
  | zero => intro _ w s hs; exact ⟨0, s, Nat.le_refl 0, .refl, hs.toInWorld⟩
  | succ m ih =>
    intro hm w s hs
    -- the label is the step that this round counts
    rw [Nat.add_comm m 1]
    refine .of_steps (.one (step_label (hs.ip ▸ ha))) ?_
    rw [Nat.add_comm 1 m, Walk.loop]
    refine htest (hs.ip ▸ hs.jump _) (fun ht => ?_) fun ht => ?_
    · have hle : m ≤ n := Nat.le_of_succ_le hm
      exact .bind ((hbody ht).mono hle) fun ht' =>
        .of_step (step_jmp (ht'.ip ▸ hz) (hp ha)) (ih hle (ht'.jump a))
    · exact .of_step (step_label (ht.ip ▸ he)) (.refl (ht.ip ▸ ht.jump _))

end Linked

/-! ## Scopes behind statements -/

theorem ForInit.Emits.after {Γ Γ' : Scopes} {n n' : Nat} {init : Option ForInit} {c : List Instr}
    (h : ForInit.Emits Γ n init c Γ' n') : ForInit.after Γ init = Γ' := by
  cases h with
  | none | assign => rfl
  | decl _ hd => simp [ForInit.after, Scopes.checkDeclare, hd]

theorem Stmt.afterOption_eq {Γ : Scopes} {o : Option Stmt} :
    Stmt.afterOption Γ o = o.toList.foldl Stmt.after Γ := by
  cases o <;> rfl

/-- The scopes behind the code of statements are those behind the statements. -/
theorem Stmt.EmitsAll.after {Γ Γ' : Scopes} {n n' : Nat} {ss : List Stmt} {c : List Instr}
    (h : Stmt.EmitsAll Γ n ss c Γ' n') : ss.foldl Stmt.after Γ = Γ' := by
  induction h with
  | nil | assign | expr | write | readNil | readCons | forLoop | block => rfl
  | cons _ _ ih₁ ih₂ => rw [List.foldl_cons, ← ih₂, ← ih₁]; rfl
  | decl hd => simp [Stmt.after, hd]
  | ifElse _ _ _ iht ihe =>
    simp only [List.foldl_cons, List.foldl_nil, Stmt.after, Stmt.afterOption_eq] at iht ⊢
    rw [iht, ihe]
  | whileLoop _ _ ih => exact ih

/-! ## Statements -/

theorem Expr.length_of_evalAll {Γ : Scopes} {ρ : String → Option Value} :
    ∀ {es : List Expr} {vs : List Value}, Expr.evalAll Γ ρ es = .ok vs → vs.length = es.length
  | [], vs, h => by cases h; rfl
  | e :: es, vs, h => by
    simp only [Expr.evalAll, bind, Except.bind, pure, Except.pure] at h
    cases he : e.eval Γ ρ with
    | error f => simp [he] at h
    | ok v =>
      cases hes : Expr.evalAll Γ ρ es with
      | error f => simp [he, hes] at h
      | ok vs' =>
        simp only [he, hes, Except.ok.injEq] at h
        rw [← h, List.length_cons, List.length_cons, length_of_evalAll hes]

theorem Walk.assignTo_of_get? {Γ : Scopes} {x : String} {t : Ty} {e : Expr}
    (hx : Γ.get? x = some t) : Walk.assignTo (W := W) Γ x e = Walk.store Γ x t e := by
  simp [Walk.assignTo, hx]

variable [Writer W]

theorem Stmt.walkOption_eq {n : Nat} {Γ : Scopes} {o : Option Stmt} :
    Stmt.walkOption (W := W) n Γ o = Stmt.walkAll n Γ o.toList := by
  cases o <;> simp [Stmt.walkOption, Stmt.walkAll]

theorem Stmt.walkAll_singleton {n : Nat} {Γ : Scopes} {s : Stmt} :
    Stmt.walkAll (W := W) n Γ [s] = s.walk n Γ := by
  simp [Stmt.walkAll]

open Linked

section

variable {p : Linked} {Γ Γ' : Scopes} {n n' N i j : Nat} {w : World W} {s : State W}
  {c : List Instr}

theorem Expr.Emits.follows (hp : p.Exact) {e : Expr} {f : Value → Walk W Unit}
    (h : e.Emits Γ n c n') (hs : s.At w i []) (hc : p.Holds i c)
    (hf : ∀ {v t}, t.At w (i + c.length) [v] → p.Follows N t j (f v w)) :
    p.Follows N s j ((Walk.eval Γ e >>= f) w) := by
  obtain ⟨hw, rfl, hstack⟩ := hs
  have hleads := h.leads hp hc
  rw [hstack, hw.vars] at hleads
  exact .lift hw hleads fun _ => hf

theorem Expr.EmitsStore.follows (hp : p.Exact) {x : String} {t : Ty} {e : Expr}
    (h : e.EmitsStore Γ x t n c n') (hs : s.At w i []) (hc : p.Holds i c) :
    p.Follows N s (i + c.length) (Walk.store Γ x t e w) := by
  obtain ⟨he⟩ := h
  simp only [holds_append, holds_cons, List.length_append, ← Nat.add_assoc] at hc
  obtain ⟨⟨hce, hcv⟩, hsave, -⟩ := hc
  simp only [List.length_append, ← Nat.add_assoc]
  refine he.follows hp hs hce fun ht => ?_
  rw [← ht.ip] at hcv hsave ⊢
  refine .lift ht.toInWorld (leads_conversion hcv ht.stack) fun _ hu => ?_
  obtain ⟨u', hstep, hu'⟩ := step_save hu hsave
  exact .of_step hstep (.refl hu')

theorem ForInit.Emits.follows (hp : p.Exact) {init : Option ForInit}
    (h : ForInit.Emits Γ n init c Γ' n') (hs : s.At w i []) (hc : p.Holds i c) :
    p.Follows N s (i + c.length) (ForInit.walk Γ init w) := by
  cases h with
  | none => exact .refl hs
  | decl he _ => exact he.follows hp hs hc
  | assign hx he =>
    rw [ForInit.walk, Walk.assignTo_of_get? hx]
    exact he.follows hp hs hc

/-- A test goes on behind its code if it is true, and at its label if not. -/
theorem Expr.EmitsTest.follows (hp : p.Exact) {l : String} {e : Nat} {o : Option Expr}
    {f : Bool → Walk W Unit} (h : Expr.EmitsTest Γ l n o c n') (hc : p.Holds i c)
    (hl : p.target? l = Option.some e) (hs : s.At w i [])
    (h₁ : ∀ {t}, t.At w (i + c.length) [] → p.Follows N t j (f true w))
    (h₂ : ∀ {t}, t.At w e [] → p.Follows N t j (f false w)) :
    p.Follows N s j ((Walk.test Γ o >>= f) w) := by
  cases h with
  | none => exact h₁ hs
  | some he =>
    simp only [holds_append, holds_cons, List.length_append, ← Nat.add_assoc] at hc h₁
    obtain ⟨hce, hf, -⟩ := hc
    rw [Walk.test, bind_assoc]
    refine he.follows hp hs hce fun {v t} ht => ?_
    have hstep := step_fjmp (ht.ip ▸ hf) hl ht.stack
    cases hv : v.asBool (.named .fjmp) with
    | error g =>
      rw [hv] at hstep
      exact ⟨0, t, _, _, .refl, hstep, (ht.move _ _).toInWorld, rfl⟩
    | ok b =>
      rw [hv] at hstep
      cases b with
      | true => exact .of_step hstep (h₁ (ht.ip ▸ ht.move _ _))
      | false => exact .of_step hstep (h₂ (ht.move _ _))

/-- **The code of statements follows their walk.** -/
theorem Stmt.EmitsAll.follows (hp : p.Exact) {ss : List Stmt}
    (h : Stmt.EmitsAll Γ n ss c Γ' n') : ∀ {i : Nat} {w : World W} {s : State W}, s.At w i [] →
      p.Holds i c → p.Follows N s (i + c.length) (Stmt.walkAll N Γ ss w) := by
  induction h with
  | nil => intro i w s hs _; exact .refl hs
  | @cons Γ _ s c₁ Γ₁ _ ss c₂ _ _ h₁ _ ih₁ ih₂ =>
    intro i w s hs hc
    obtain ⟨hc₁, hc₂⟩ := holds_append.1 hc
    rw [Stmt.walkAll, List.length_append, ← Nat.add_assoc]
    rw [show Stmt.after Γ _ = Γ₁ from h₁.after]
    simp only [Stmt.walkAll_singleton] at ih₁
    exact .bind (ih₁ hs hc₁) fun ht => ih₂ ht hc₂
  | decl => intro i w s hs _; exact .refl hs
  | assign hx he =>
    intro i w s hs hc
    rw [Stmt.walkAll_singleton, Stmt.walk, Walk.assignTo_of_get? hx]
    exact he.follows hp hs hc
  | expr he =>
    intro i w s hs hc
    obtain ⟨hce, hpop, -⟩ := by simpa only [holds_append, holds_cons] using hc
    rw [Stmt.walkAll_singleton, Stmt.walk, List.length_append, ← Nat.add_assoc]
    refine he.follows hp hs hce fun ht => ?_
    obtain ⟨u, hstep, hu⟩ := step_pop ht hpop
    exact .of_step hstep (.refl hu)
  | @write Γ _ es c _ hes =>
    intro i w s hs hc
    obtain ⟨hce, hpr, -⟩ := by simpa only [holds_append, holds_cons] using hc
    obtain ⟨hw, rfl, hstack⟩ := hs
    rw [Stmt.walkAll_singleton, Stmt.walk, List.length_append, ← Nat.add_assoc]
    have hleads := hes.leads hp hce
    simp only [hstack, List.append_nil, hw.vars] at hleads
    refine .lift hw hleads fun hvs ht => ?_
    rw [← Expr.length_of_evalAll hvs] at hpr
    exact follows_print ht hpr
  | readNil => intro i w s hs _; exact .refl hs
  | @readCons Γ _ x t tag xs c hx ht _ ih =>
    intro i w s hs hc
    simp only [holds_cons] at hc
    obtain ⟨hr, hsave, hc⟩ := hc
    simp only [Stmt.walkAll_singleton, Stmt.walk] at ih ⊢
    simp only [Walk.readAll, hx, ht, Option.bind_some, List.length_cons, ← bind_assoc]
    rw [show i + (c.length + 1 + 1) = i + 1 + 1 + c.length by omega]
    refine .bind (follows_read hs hr hsave) fun ht => ?_
    exact ih ht hc
  | @ifElse Γ n c cc n₁ t ct Γ₁ n₂ e ce Γ₂ n₃ hc ht he iht ihe =>
    intro i w s hs hcode
    simp only [holds_append, holds_cons] at hcode
    obtain ⟨hcc, hf, hct, hj, hl, hce, hl', -⟩ := hcode
    generalize hE : i + cc.length + 1 + ct.length + 1 + 1 + ce.length = E at hl'
    generalize hL : i + List.length _ = L
    obtain rfl : L = E + 1 := by
      simp only [List.length_append, List.length_cons, List.length_nil] at hL
      omega
    rw [Stmt.walkAll_singleton, Stmt.walk]
    have hcode : p.Holds i (cc ++ [.named .fjmp (labelName n)]) := by simp [hcc, hf]
    simp only [Stmt.walkAll_singleton] at iht
    simp only [← Stmt.walkOption_eq, ← show t.after Γ = Γ₁ from ht.after] at ihe
    refine (Expr.EmitsTest.some hc).follows hp hcode (hp hl) hs (fun hu => ?_) fun {u} hu => ?_
    · have htrue := iht (by simpa [← Nat.add_assoc] using hu) hct
      refine htrue.then_steps fun u hip => ⟨2, ?_⟩
      exact .step (step_jmp (hip ▸ hj) (hp hl')) (.one (step_label hl'))
    · refine .of_step (step_label (hu.ip ▸ hl)) ?_
      have hu' := hu.jump (u.ip + 1)
      rw [hu.ip] at hu' ⊢
      have hfalse := ihe hu' hce
      refine hfalse.then_steps fun u hip => ⟨1, ?_⟩
      rw [hE] at hip
      have hlabel := step_label (s := u) (hip ▸ hl')
      rw [hip] at hlabel
      exact .one hlabel
  | @whileLoop Γ n c cc n₁ b cb Γ₁ n₂ hc _ ih =>
    intro i w s hs hcode
    simp only [holds_append, holds_cons] at hcode
    obtain ⟨hl, hcc, hf, hcb, hj, hl', -⟩ := hcode
    have hcode : p.Holds (i + 1) (cc ++ [.named .fjmp (labelName (n + 1))]) := by simp [hcc, hf]
    simp only [Stmt.walkAll_singleton] at ih ⊢
    have hloop := follows_loop hp (Walk.test Γ (some c)) hl hj hl'
      (fun hs h₁ h₂ => (Expr.EmitsTest.some hc).follows hp hcode (hp hl') hs
        (fun ht => h₁ (by simpa [← Nat.add_assoc] using ht)) h₂)
      (fun ht => ih ht hcb) (Nat.le_refl N) hs
    rw [Stmt.walk]
    refine hloop.of_eq ?_
    simp only [List.length_append, List.length_cons, List.length_nil]
    omega
  | @forLoop Γ n init ci Γ₁ n₁ c cc n₂ b cb Γ₂ n₃ step cs Γ₃ n₄ hi hc hb _ ihb ihs =>
    intro i w s hs hcode
    simp only [holds_append, holds_cons] at hcode
    obtain ⟨hci, hl, hcc, hcb, hcs, hj, hl', -⟩ := hcode
    simp only [Stmt.walkAll_singleton] at ihb ⊢
    simp only [← show b.after Γ₁ = Γ₂ from hb.after, ← Stmt.walkOption_eq] at ihs
    rw [Stmt.walk, hi.after]
    refine .bind (hi.follows hp hs hci) fun ht => ?_
    have hloop := follows_loop hp (Walk.test Γ₁ c) hl hj hl'
      (fun hs h₁ h₂ => hc.follows hp hcc (hp hl') hs h₁ h₂)
      (fun hs => .bind (f := fun _ => Stmt.walkOption N (b.after Γ₁) step) (ihb hs hcb)
        fun ht => ihs ht hcs) (Nat.le_refl N) ht
    refine hloop.of_eq ?_
    simp only [List.length_append, List.length_cons, List.length_nil]
    omega
  | block _ ih =>
    intro i w s hs hc
    rw [Stmt.walkAll_singleton, Stmt.walk]
    exact ih hs hc

end

end StackLang
