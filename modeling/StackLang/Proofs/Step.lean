/-
  Steps of a machine, and the code that stands at an index.

  * `Exec.read_eq`, `Exec.print_of_lt` and `Exec.print_of_le` say what reading and
    printing do to a state;
  * `Linked.Steps p k s t`: the machine goes from `s` to `t` in `k` steps;
  * `Linked.run` makes these steps (`Linked.Steps.run_add`), and so what a run
    ends in is determined by any number of its first steps;
  * `Linked.Holds p i code`: the code stands in the program from the index `i`
    on.
-/
import StackLang.Machine.Run

namespace StackLang

theorem get_apply {ε σ : Type} (s : σ) : (EStateM.get : EStateM ε σ σ) s = .ok s s := rfl

theorem set_apply {ε σ : Type} (t s : σ) : (EStateM.set t : EStateM ε σ PUnit) s = .ok ⟨⟩ t := rfl

/-! ## Reading and printing -/

namespace Exec

variable {W : Type}

theorem read_eq (tag : Tag) (s : State W) :
    read tag s =
      match s.input.next.1 with
      | none => .error .inputExhausted { s with input := s.input.next.2 }
      | some text =>
        match Value.read tag text with
        | .ok v => .ok () { s with input := s.input.next.2, stack := v :: s.stack }
        | .error _ => .error (.badInput text tag) { s with input := s.input.next.2 } := by
  simp only [read, Bind.bind, EStateM.bind, get, getThe, MonadStateOf.get, get_apply, set,
    set_apply]
  cases s.input.next.1 with
  | none => rfl
  | some text =>
    dsimp only
    cases Value.read tag text <;> rfl

/-- Nothing is printed from a stack that is too low. -/
theorem print_of_lt [Writer W] {n : Nat} {s : State W} (h : s.stack.length < n) :
    print n s = .error .stackUnderflow s := by
  simp only [print, Bind.bind, EStateM.bind, get, getThe, MonadStateOf.get, get_apply, if_pos h]
  rfl

/-- The values are gone whether the line could be written or not. -/
theorem print_of_le [Writer W] {n : Nat} {s : State W} (h : n ≤ s.stack.length) :
    print n s =
      match Writer.write s.sink (lineOf n s.stack ++ "\n") with
      | (.ok _, k) => .ok () { s with stack := s.stack.drop n, sink := k }
      | (.error cause, k) =>
        .error (.outputFailed cause) { s with stack := s.stack.drop n, sink := k } := by
  have hn : ¬ s.stack.length < n := Nat.not_lt.2 h
  simp only [print, Bind.bind, EStateM.bind, get, getThe, MonadStateOf.get, get_apply, if_neg hn,
    Pure.pure]
  rcases Writer.write s.sink _ with ⟨_ | _, k⟩ <;> rfl

end Exec

namespace Linked

variable {W : Type} [Writer W] {p : Linked}

/-! ## Steps -/

/-- The machine goes from one state to another in a number of steps. -/
inductive Steps (p : Linked) : Nat → State W → State W → Prop
  | refl {s} : Steps p 0 s s
  | step {k s t u} : p.step s = .next t → Steps p k t u → Steps p (k + 1) s u

namespace Steps

theorem one {s t : State W} (h : p.step s = .next t) : Steps p 1 s t := .step h .refl

theorem trans {k l : Nat} {s t u : State W} (h₁ : Steps p k s t) (h₂ : Steps p l t u) :
    Steps p (k + l) s u := by
  induction h₁ with
  | refl => rwa [Nat.zero_add]
  | step h _ ih => rw [Nat.add_right_comm]; exact .step h (ih h₂)

/-- A run passes through the states that its steps lead to. -/
theorem run_add {k : Nat} {s t : State W} (h : Steps p k s t) (n : Nat) :
    p.run (k + n) s = p.run n t := by
  induction h with
  | refl => rw [Nat.zero_add]
  | step h _ ih => rw [Nat.add_right_comm, run, h]; exact ih

/-- Fewer steps lead to a state on the way. -/
theorem split {k l : Nat} {s u : State W} (h : Steps p (k + l) s u) :
    ∃ t, Steps p k s t ∧ Steps p l t u := by
  induction k generalizing s with
  | zero => exact ⟨s, .refl, by rwa [Nat.zero_add] at h⟩
  | succ k ih =>
    rw [Nat.add_right_comm] at h
    cases h with
    | step h₁ h₂ =>
      obtain ⟨t, ht, hu⟩ := ih h₂
      exact ⟨t, .step h₁ ht, hu⟩

theorem run_eq_of_failed {k : Nat} {s t u : State W} {r : Report} (h : Steps p k s t)
    (hf : p.step t = .failed u r) : p.run (k + 1) s = (u, .failed r) := by
  rw [h.run_add 1, run, hf]

theorem run_eq_of_halted {k : Nat} {s t : State W} (h : Steps p k s t)
    (hh : p.step t = .halted) : p.run (k + 1) s = p.finish t := by
  rw [h.run_add 1, run, hh]

end Steps

theorem finish_ne_unfinished (p : Linked) (s : State W) : (p.finish s).2 ≠ .unfinished := by
  simp only [finish]
  split <;> simp

theorem fault_of_finish {s : State W} {r : Report} (h : (p.finish s).2 = .failed r) :
    ∃ cause, r.fault = .outputFailed cause := by
  simp only [finish] at h
  split at h
  · cases h
  · next cause _ => cases h; exact ⟨cause, rfl⟩

/-- A run that is not over made as many steps as it could. -/
theorem run_unfinished {n : Nat} {s t : State W} (h : p.run n s = (t, .unfinished)) :
    Steps p n s t := by
  induction n generalizing s with
  | zero =>
    simp only [run, Prod.mk.injEq, and_true] at h
    subst h; exact .refl
  | succ n ih =>
    rw [run] at h
    cases hs : p.step s with
    | halted =>
      simp only [hs] at h
      exact absurd (congrArg Prod.snd h) (finish_ne_unfinished p s)
    | next s' => rw [hs] at h; exact .step hs (ih h)
    | failed s' r => simp [hs] at h

/-- A run makes some steps, and then it is cut off, ends or fails. -/
theorem run_cases (p : Linked) (n : Nat) (s : State W) : ∃ k t, Steps p k s t ∧
    (p.run n s = (t, .unfinished) ∨ p.step t = .halted ∧ p.run n s = p.finish t ∨
      ∃ u r, p.step t = .failed u r ∧ p.run n s = (u, .failed r)) := by
  induction n generalizing s with
  | zero => exact ⟨0, s, .refl, .inl rfl⟩
  | succ n ih =>
    cases hs : p.step s with
    | halted => exact ⟨0, s, .refl, .inr (.inl ⟨hs, by rw [run, hs]⟩)⟩
    | failed u r => exact ⟨0, s, .refl, .inr (.inr ⟨u, r, hs, by rw [run, hs]⟩)⟩
    | next s' =>
      obtain ⟨k, t, hk, ht⟩ := ih s'
      rw [← show p.run (n + 1) s = p.run n s' by rw [run, hs]] at ht
      exact ⟨k + 1, t, .step hs hk, ht⟩

theorem run_of_steps {k : Nat} {s t : State W} (h : Steps p k s t) :
    p.run k s = (t, .unfinished) := h.run_add 0

/-- What a run ends in does not depend on how many steps it could have made. -/
theorem run_add_of_ended {n : Nat} {s : State W} (h : (p.run n s).2 ≠ .unfinished) (m : Nat) :
    p.run (n + m) s = p.run n s := by
  induction n generalizing s with
  | zero => exact absurd rfl h
  | succ n ih =>
    rw [Nat.add_right_comm, run]
    rw [run] at h ⊢
    cases hs : p.step s with
    | halted | failed => rfl
    | next s' => simp only [hs] at h ⊢; exact ih h

/-- A run that ended is not that of more steps. -/
theorem Steps.lt_of_ended {k n : Nat} {s t : State W} (h : Steps p k s t)
    (hn : (p.run n s).2 ≠ .unfinished) : k < n := by
  refine Nat.lt_of_not_le fun hle => hn ?_
  obtain ⟨m, rfl⟩ := Nat.exists_eq_add_of_le hle
  obtain ⟨u, hu, -⟩ := h.split
  rw [run_of_steps hu]

/-! ## Code at an index -/

/-- The code stands in the program from an index on. -/
def Holds (p : Linked) (i : Nat) (code : List Instr) : Prop :=
  ∀ j, j < code.length → p.get? (i + j) = code[j]?

@[simp] theorem holds_nil {i : Nat} : p.Holds i [] := by
  intro j hj; simp at hj

@[simp] theorem holds_cons {i : Nat} {x : Instr} {c : List Instr} :
    p.Holds i (x :: c) ↔ p.get? i = some x ∧ p.Holds (i + 1) c := by
  constructor
  · intro h
    refine ⟨by simpa using h 0 (by simp), fun j hj => ?_⟩
    have := h (j + 1) (by simpa using hj)
    rwa [List.getElem?_cons_succ, ← Nat.add_assoc, Nat.add_right_comm] at this
  · rintro ⟨hx, hc⟩ (_ | j) hj
    · simpa using hx
    · rw [List.getElem?_cons_succ, ← hc j (by simpa using hj)]
      congr 1; omega

@[simp] theorem holds_append {i : Nat} {c₁ c₂ : List Instr} :
    p.Holds i (c₁ ++ c₂) ↔ p.Holds i c₁ ∧ p.Holds (i + c₁.length) c₂ := by
  induction c₁ generalizing i with
  | nil => simp
  | cons x c₁ ih =>
    simp only [List.cons_append, holds_cons, ih, List.length_cons, and_assoc]
    rw [show i + 1 + c₁.length = i + (c₁.length + 1) by omega]

/-! ## One step -/

theorem step_eq_next {s t : State W} {i : Instr} (hi : p.get? s.ip = some i)
    (h : (i.execute p).run { s with ip := s.ip + 1 } = .ok () t) : p.step s = .next t := by
  simp only [step, hi, h]

theorem step_eq_failed {s t : State W} {i : Instr} {f : Fault} (hi : p.get? s.ip = some i)
    (h : (i.execute p).run { s with ip := s.ip + 1 } = .error f t) :
    p.step s = .failed t (.located s.ip i.text f) := by
  simp only [step, hi, h]

theorem step_eq_halted {s : State W} (h : p.get? s.ip = none) : p.step s = .halted := by
  simp only [step, h]

theorem step_label {s : State W} {l : String} (h : p.get? s.ip = some (.named .label l)) :
    p.step s = .next { s with ip := s.ip + 1 } := step_eq_next h rfl

theorem step_jmp {s : State W} {l : String} {j : Nat} (h : p.get? s.ip = some (.named .jmp l))
    (hl : p.target? l = some j) : p.step s = .next { s with ip := j } := by
  refine step_eq_next h ?_
  simp only [Instr.execute, Exec.named, Exec.jump, hl]
  rfl

theorem step_load {s : State W} {z : String} {v : Value} (h : p.get? s.ip = some (.named .load z))
    (hv : s.store.get? z = some v) :
    p.step s = .next { s with ip := s.ip + 1, stack := v :: s.stack } := by
  refine step_eq_next h ?_
  simp only [Instr.execute, Exec.named, EStateM.run, bind, EStateM.bind, get, getThe,
    MonadStateOf.get, get_apply, hv]
  rfl

theorem step_load_unset {s : State W} {z : String} (h : p.get? s.ip = some (.named .load z))
    (hv : s.store.get? z = none) : p.step s = .failed { s with ip := s.ip + 1 }
      (.located s.ip (Instr.named .load z).text (.uninitialized z)) := by
  refine step_eq_failed h ?_
  simp only [Instr.execute, Exec.named, EStateM.run, bind, EStateM.bind, get, getThe,
    MonadStateOf.get, get_apply, hv]
  rfl

theorem step_store {s : State W} {z : String} {v : Value} {σ : List Value}
    (h : p.get? s.ip = some (.named .save z)) (hσ : s.stack = v :: σ) : p.step s =
      .next { s with ip := s.ip + 1, stack := σ, store := s.store.set z v } := by
  obtain ⟨ip, _, m, input, sink⟩ := s
  subst hσ
  exact step_eq_next h rfl

theorem step_store_empty {s : State W} {z : String} (h : p.get? s.ip = some (.named .save z))
    (hσ : s.stack = []) : p.step s = .failed { s with ip := s.ip + 1 }
      (.located s.ip (Instr.named .save z).text .stackUnderflow) := by
  obtain ⟨ip, _, m, input, sink⟩ := s
  subst hσ
  exact step_eq_failed h rfl

end Linked

end StackLang
