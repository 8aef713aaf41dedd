/-
  Code that only jumps forward.

  * `Code.Forward c`: every jump in `c` has its label further on.  The code of all
    expressions is of this kind, and that of statements without loops
    (`Stmt.EmitsAll.forward`);
  * in such code every instruction leads to a greater index (`Linked.Advances`), so a run
    executes each instruction at most once (`Linked.Advances.executed_sorted`), and it ends
    (`Linked.Advances.run_ends`);
  * `Program.loopFree_halts`: programs without loops halt.
-/
import StackLang.Event
import StackLang.Proofs.Frame
import StackLang.Proofs.Label

namespace StackLang

/-! ## Forward code -/

namespace Code

/-- Every jump has its label further on in the code. -/
def Forward : List Instr → Prop
  | [] => True
  | i :: c => (∀ l ∈ i.target?, l ∈ defs c) ∧ Forward c

namespace Forward

variable {c c₁ c₂ : List Instr}

theorem append (h₁ : Forward c₁) (h₂ : Forward c₂) : Forward (c₁ ++ c₂) := by
  induction c₁ with
  | nil => exact h₂
  | cons i c₁ ih =>
    obtain ⟨hi, h₁⟩ := h₁
    refine ⟨fun l hl => ?_, ih h₁⟩
    exact (defs_append c₁ c₂).symm ▸ List.mem_append_left _ (hi l hl)

/-- An instruction that is no jump. -/
theorem instr {i : Instr} (hi : i.target? = none) : Forward [i] := ⟨by simp [hi], trivial⟩

theorem conversion {given wanted : Ty} : Forward (given.conversion wanted) := by
  unfold Ty.conversion
  split
  · exact instr rfl
  · trivial

/-- Two branches behind a test: both jumps go over a branch. -/
theorem branch {l l' : String} {cc ct ce : List Instr} (hc : Forward cc) (ht : Forward ct)
    (he : Forward ce) :
    Forward (cc ++ .named .fjmp l :: (ct ++ .named .jmp l' :: .named .label l ::
      (ce ++ [.named .label l']))) := by
  have helse : Forward (.named .label l :: (ce ++ [.named .label l'])) :=
    ⟨nofun, he.append (instr rfl)⟩
  have hjmp : Forward (.named .jmp l' :: .named .label l :: (ce ++ [.named .label l'])) := by
    refine ⟨?_, helse⟩
    simp [Instr.target?, Instr.label?]
  refine hc.append ⟨?_, ht.append hjmp⟩
  simp [Instr.target?, Instr.label?]

/-- The label of a jump stands behind it. -/
theorem mem_drop {code : List Instr} (h : Forward code) {k : Nat} {i : Instr} {l : String}
    (hi : code[k]? = some i) (hl : i.target? = some l) : .named .label l ∈ code.drop (k + 1) := by
  induction code generalizing k with
  | nil => simp at hi
  | cons j code ih =>
    cases k with
    | zero =>
      obtain rfl : j = i := by simpa using hi
      exact mem_defs_iff.1 (h.1 l hl)
    | succ k => exact ih h.2 (by simpa using hi)

end Forward

end Code

/-! ## Statements without loops -/

mutual

/-- The statement contains no loop. -/
def Stmt.loopFree : Stmt → Bool
  | .ifElse _ t e => t.loopFree && Stmt.loopFreeOption e
  | .block ss => Stmt.loopFreeAll ss
  | .whileLoop _ _ | .forLoop _ _ _ _ => false
  | .decl _ _ | .assign _ _ | .expr _ | .write _ | .read _ => true

/-- A statement contains no loop, if there is one. -/
def Stmt.loopFreeOption : Option Stmt → Bool
  | none => true
  | some s => s.loopFree

/-- Statements contain no loop. -/
def Stmt.loopFreeAll : List Stmt → Bool
  | [] => true
  | s :: ss => s.loopFree && Stmt.loopFreeAll ss

end

theorem Stmt.loopFreeAll_singleton {s : Stmt} : Stmt.loopFreeAll [s] = s.loopFree := by
  simp [loopFreeAll]

theorem Stmt.loopFreeOption_eq {o : Option Stmt} :
    Stmt.loopFreeOption o = Stmt.loopFreeAll o.toList := by
  cases o with
  | none => rfl
  | some s => exact loopFreeAll_singleton.symm

section

variable {Γ Γ' : Scopes} {n n' : Nat} {c : List Instr}

open Code

theorem Expr.Emits.forward {e : Expr} (he : e.Emits Γ n c n') : Forward c := by
  induction he with
  | lit | var => exact .instr rfl
  | minus _ ih | not _ ih => exact ih.append (.instr rfl)
  | plain _ _ _ ihl ihr => exact (ihl.append ihr).append (.instr rfl)
  | numeric _ _ _ _ ihl ihr =>
    exact ((ihl.append .conversion).append (ihr.append .conversion)).append (.instr rfl)
  | @equality _ _ neg _ _ _ _ _ _ tag _ _ _ _ ihl ihr =>
    refine ((ihl.append .conversion).append (ihr.append .conversion)).append ⟨nofun, ?_⟩
    cases neg with
    | false => trivial
    | true => exact .instr rfl
  | cond _ _ _ ihc iht ihe => exact ihc.branch (iht.append .conversion) (ihe.append .conversion)
  | paren _ ih => exact ih

theorem Expr.EmitsAll.forward {es : List Expr} (hes : Expr.EmitsAll Γ n es c n') : Forward c := by
  induction hes with
  | nil => trivial
  | cons he _ ih => exact he.forward.append ih

theorem Expr.EmitsStore.forward {x : String} {t : Ty} {e : Expr} (he : e.EmitsStore Γ x t n c n') :
    Forward c := by
  obtain ⟨he⟩ := he
  exact (he.forward.append .conversion).append (.instr rfl)

/-- **The code of statements without loops only jumps forward.** -/
theorem Stmt.EmitsAll.forward {ss : List Stmt} (hss : Stmt.EmitsAll Γ n ss c Γ' n')
    (hfree : Stmt.loopFreeAll ss = true) : Forward c := by
  induction hss with
  | nil | decl | readNil => trivial
  | cons _ _ ih₁ ih₂ =>
    simp only [Stmt.loopFreeAll, Bool.and_eq_true] at hfree
    exact (ih₁ (Stmt.loopFreeAll_singleton.trans hfree.1)).append (ih₂ hfree.2)
  | assign _ he => exact he.forward
  | expr he => exact he.forward.append (.instr rfl)
  | write hes => exact hes.forward.append (.instr rfl)
  | readCons _ _ _ ih => exact ⟨nofun, nofun, ih rfl⟩
  | ifElse hc _ _ iht ihe =>
    simp only [Stmt.loopFreeAll_singleton, Stmt.loopFree, Bool.and_eq_true,
      Stmt.loopFreeOption_eq] at hfree
    exact hc.forward.branch (iht (Stmt.loopFreeAll_singleton.trans hfree.1)) (ihe hfree.2)
  | whileLoop | forLoop => rw [Stmt.loopFreeAll_singleton] at hfree; cases hfree
  | block _ ih => exact ih (by rwa [Stmt.loopFreeAll_singleton] at hfree)

end

/-! ## Runs -/

/-- The index of the instruction that an event says was executed. -/
def Event.executed? : Event → Option Nat
  | executing k _ _ => some k
  | _ => none

namespace Linked

variable {W : Type} [Writer W] {code : List Instr} {p : Linked} {s t : State W} {n : Nat}

/-- The indices of the instructions that a run of at most `fuel` steps executes, in
    order. -/
def executed (p : Linked) (fuel : Nat) (s : State W) : List Nat :=
  (p.runEvents true fuel s).filterMap Event.executed?

omit [Writer W] in
theorem executed_stepEvents (s : State W) (i : Instr) :
    (stepEvents true s i).filterMap Event.executed? = [s.ip] := by
  have hinput : s.input.events.filterMap Event.executed? = [] := by
    unfold Input.events
    split <;> rfl
  simp only [stepEvents, if_true, List.filterMap_append]
  refine congrArg ([s.ip] ++ ·) ?_
  split
  · exact hinput
  · split <;> rfl
  · rfl

theorem executed_succ : p.executed (n + 1) s =
    match p.step s with
    | .halted => []
    | .next t => s.ip :: p.executed n t
    | .failed _ _ => [s.ip] := by
  rw [executed, runEvents_succ]
  cases hi : p.get? s.ip with
  | none => rw [step_eq_halted hi]; rfl
  | some i =>
    simp only [List.filterMap_append, executed_stepEvents]
    cases hs : p.step s with
    | halted =>
      simp only [step, hi] at hs
      split at hs <;> cases hs
    | next | failed => rfl

/-- Every instruction leads to a greater index, whether it succeeds or fails. -/
def Advances (p : Linked) : Prop :=
  ∀ {W : Type} [Writer W] {s t : State W},
    (p.step s = .next t ∨ ∃ r, p.step s = .failed t r) → s.ip < t.ip

/-- In code that only jumps forward every instruction leads to a greater index. -/
theorem advances_of_forward (hp : Code.link code = .ok p) (hcode : Code.Forward code) :
    p.Advances := by
  intro W _ s t h
  cases hi : p.get? s.ip with
  | none => simp [step_eq_halted hi] at h
  | some i =>
    rcases ip_of_step hi h with hip | ⟨l, hl, ht⟩
    · omega
    · -- the label of the jump stands behind it, and it is the only one of its name
      rw [Code.get?_of_link hp] at hi
      obtain ⟨j, hj⟩ := List.getElem?_of_mem (hcode.mem_drop hi hl)
      rw [List.getElem?_drop, ← Code.get?_of_link hp] at hj
      have hip := Option.some.inj ((Code.exact_of_link hp hj).symm.trans ht)
      omega

namespace Advances

variable (hp : p.Advances)

include hp

theorem le_of_mem_executed {k : Nat} (hk : k ∈ p.executed n s) : s.ip ≤ k := by
  induction n generalizing s with
  | zero => cases hk
  | succ n ih =>
    rw [executed_succ] at hk
    cases hs : p.step s with
    | halted => simp [hs] at hk
    | failed t r =>
      simp only [hs, List.mem_singleton] at hk
      exact Nat.le_of_eq hk.symm
    | next t =>
      simp only [hs, List.mem_cons] at hk
      rcases hk with rfl | hk
      · exact Nat.le_refl _
      · exact Nat.le_of_lt (Nat.lt_of_lt_of_le (hp (.inl hs)) (ih hk))

/-- **A run executes the instructions in the order of their indices**, each at most
    once. -/
theorem executed_sorted : (p.executed n s).Pairwise (· < ·) := by
  induction n generalizing s with
  | zero => exact .nil
  | succ n ih =>
    rw [executed_succ]
    cases hs : p.step s with
    | halted => exact .nil
    | failed t r => exact List.pairwise_singleton _ _
    | next t =>
      refine List.pairwise_cons.2 ⟨fun k hk => ?_, ih⟩
      exact Nat.lt_of_lt_of_le (hp (.inl hs)) (hp.le_of_mem_executed hk)

theorem le_of_steps (h : p.Steps n s t) : s.ip + n ≤ t.ip := by
  induction h with
  | refl => exact Nat.le_refl _
  | step h _ ih =>
    have := hp (.inl h)
    omega

/-- **A run ends** after at most as many steps as there are instructions. -/
theorem run_ends (hn : p.code.size < n) : (p.run n s).2 ≠ .unfinished := by
  intro hrun
  obtain ⟨k, rfl⟩ : ∃ k, n = k + 1 := ⟨n - 1, by omega⟩
  obtain ⟨u, hu, hlast⟩ := (run_unfinished (t := (p.run (k + 1) s).1) (by rw [← hrun])).split
  cases hlast with
  | step hstep _ =>
    have hle := hp.le_of_steps hu
    have hlt : u.ip < p.code.size := by
      by_contra hge
      rw [step_eq_halted (Array.getElem?_eq_none (by omega))] at hstep
      cases hstep
    omega

end Advances

end Linked

/-- **Programs without loops halt.**  From every state of the machine, whatever its inputs
    and its output are, each instruction leads to a greater index, whether it succeeds or
    fails.  So a run executes instructions in the order of their indices, none of them
    twice, and is done or has failed after at most as many steps as there are
    instructions. -/
theorem Program.loopFree_halts {p : Program} {code : List Instr}
    (hfree : Stmt.loopFreeAll p = true) (h : p.gen = .ok code) :
    ∃ m, Code.link code = .ok m ∧ ∀ {W : Type} [Writer W] (s : State W),
      (∀ t, (m.step s = .next t ∨ ∃ r, m.step s = .failed t r) → s.ip < t.ip) ∧
      (∀ fuel, (m.executed fuel s).Pairwise (· < ·)) ∧
      ∀ fuel, code.length < fuel → (m.run fuel s).2 = .done ∨ ∃ r, (m.run fuel s).2 = .failed r := by
  obtain ⟨Γ, n, hp⟩ := p.emitsAll_of_gen h
  obtain ⟨m, hm⟩ := p.link_of_gen h
  have hadv : m.Advances := Linked.advances_of_forward hm (hp.forward hfree)
  refine ⟨m, hm, fun {W} _ s =>
    ⟨fun t => hadv, fun fuel => hadv.executed_sorted, fun fuel hfuel => ?_⟩⟩
  rw [← Code.size_of_link hm] at hfuel
  cases ho : (m.run fuel s).2 with
  | done => exact .inl rfl
  | failed r => exact .inr ⟨r, rfl⟩
  | unfinished => exact absurd ho (hadv.run_ends hfuel)

/-- A test that is no truth value, and a ternary in a branch. -/
theorem Program.loopFree_halts_ill_typed :
    let p : Program := [.decl .int ["x"], .read ["x"], .ifElse (.var "x")
      (.block [.write [.cond (.var "y") (.lit .int "1") (.lit .string "s")]]) none]
    ∃ code m, Stmt.loopFreeAll p = true ∧ p.gen = .ok code ∧ Code.link code = .ok m ∧
      ∀ (inputs : List String) (k : Sink),
        (m.run 16 { input := .queue inputs, sink := k }).2 = .done ∨
          ∃ r, (m.run 16 { input := .queue inputs, sink := k }).2 = .failed r := by
  intro p
  have hgen : p.gen = .ok [.typed .read .int, .named .save "x", .named .load "x",
      .named .fjmp "L0", .named .load "y", .named .fjmp "L2", .push .int "1", .named .jmp "L3",
      .named .label "L2", .push .string "s", .named .label "L3", .print 1, .named .jmp "L1",
      .named .label "L0", .named .label "L1"] := rfl
  obtain ⟨m, hm, hruns⟩ := Program.loopFree_halts (by decide) hgen
  exact ⟨_, m, by decide, hgen, hm, fun inputs k => (hruns _).2.2 _ (by decide)⟩

end StackLang
