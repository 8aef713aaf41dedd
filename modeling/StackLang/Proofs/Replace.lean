/-
  What an instruction does to the stack.

  * `Instr.taken` and `Instr.left` say how many values an instruction takes from
    the stack and how many it leaves.  They do not depend on types, and so nothing
    here asks for a checked program;
  * `Instr.Risks p i f`: the fault `f` is one that the instruction `i` can end in,
    besides that of a stack that is too low;
  * `Exec.Replaces F d a b x`: on a stack of height `d` at least, the action `x` puts
    `b` values in the place of the `a` topmost ones, or it fails with one of the faults
    `F` when at most these are gone.  Only a stack that is lower than `d` lacks a value;
  * `Instr.replaces_execute` says so of every instruction.
-/
import StackLang.Proofs.Frame
import StackLang.Proofs.Typed

namespace StackLang

/-! ## What an instruction takes, leaves and risks -/

/-- How many values an operation without an operand takes. -/
def Plain.taken : Plain → Nat
  | mod | concat | and | or => 2
  | not | itof | dup | pop => 1

/-- How many values an operation without an operand leaves. -/
def Plain.left : Plain → Nat
  | mod | concat | and | or | not | itof => 1
  | dup => 2
  | pop => 0

/-- How many values an operation with a type tag takes.  It leaves one. -/
def Typed.taken : Typed → Nat
  | add | sub | mul | div | lt | gt | eq => 2
  | uminus => 1
  | read => 0

/-- How many values an operation with a name takes. -/
def Named.taken : Named → Nat
  | save | fjmp => 1
  | load | jmp | label => 0

/-- How many values an operation with a name leaves. -/
def Named.left : Named → Nat
  | load => 1
  | save | fjmp | jmp | label => 0

namespace Instr

/-- How many values an instruction takes from the stack. -/
def taken : Instr → Nat
  | push _ _ => 0
  | print n => n
  | plain op => op.taken
  | typed op _ => op.taken
  | named op _ => op.taken

/-- How many values an instruction leaves on the stack. -/
def left : Instr → Nat
  | push _ _ | typed _ _ => 1
  | print _ => 0
  | plain op => op.left
  | named op _ => op.left

/-- How many values an instruction removes from the stack.  A copy needs one, and
    removes none. -/
def removes : Instr → Nat
  | plain .dup => 0
  | i => i.taken

/-- How many values an instruction puts on the stack. -/
def adds : Instr → Nat
  | plain .dup => 1
  | i => i.left

/-- The two ways to count agree. -/
theorem taken_add_adds (i : Instr) :
    i.removes ≤ i.taken ∧ i.taken + i.adds = i.left + i.removes := by
  rcases i with _ | _ | (_ | _ | _ | _ | _ | _ | _ | _) | _ | _ <;>
    simp [removes, adds, taken, left, Plain.taken, Plain.left, Nat.add_comm]

/-- The faults that an instruction can end in, besides that of a stack that is too
    low. -/
inductive Risks (p : Linked) : Instr → Fault → Prop
  | operandMismatch {i expected found} : Risks p i (.operandMismatch i.opcode expected found)
  | quotient {tag} : Risks p (.typed .div tag) .divisionByZero
  | remainder : Risks p (.plain .mod) .divisionByZero
  | rejectedTag {op tag} : ¬ op.Accepts tag →
      Risks p (.typed op tag) (.malformed (.rejectedTag op tag))
  | badConstant {tag text cause} :
      Risks p (.push tag text) (.malformed (.badConstant tag text cause))
  | uninitialized {x} : Risks p (.named .load x) (.uninitialized x)
  | unresolvedLabel {i l} : i.target? = some l → p.target? l = none →
      Risks p i (.unresolvedLabel l)
  | inputExhausted {tag} : Risks p (.typed .read tag) .inputExhausted
  | badInput {tag text} : Risks p (.typed .read tag) (.badInput text tag)
  | outputFailed {n cause} : Risks p (.print n) (.outputFailed cause)

theorem Risks.ne_stackUnderflow {p : Linked} {i : Instr} {f : Fault} (h : i.Risks p f) :
    f ≠ .stackUnderflow := by
  cases h <;> simp

end Instr

/-! ## The stack -/

namespace Exec

/-- What fails on one condition only has one fault. -/
theorem eq_of_guard {c : Prop} [Decidable c] {f e : Fault} {v : Value}
    (h : (if c then .error f else .ok v) = Except.error e) : f = e := by
  split at h
  · exact Except.error.inj h
  · cases h

variable {W α β : Type} {F : Fault → Prop} {a b c d : Nat}

/-- On a stack of height `d` at least the action puts `b` values in the place of the `a`
    topmost ones.  If it fails, then with one of the faults `F` or for want of height, and
    at most `a` values are gone. -/
def Replaces (F : Fault → Prop) (d a b : Nat) (x : Exec W α) : Prop := ∀ s : State W,
  match x s with
  | .ok _ t => d ≤ s.stack.length ∧ ∃ out, out.length = b ∧ t.stack = out ++ s.stack.drop a
  | .error f t => (f = .stackUnderflow ∧ s.stack.length < d ∨ F f) ∧
      ∃ k, k ≤ a ∧ k ≤ s.stack.length ∧ t.stack = s.stack.drop k

namespace Replaces

/-- An action that leaves the stack alone. -/
theorem still {x : Exec W α} (h : ∀ s, ∃ v t, x s = .ok v t ∧ t.stack = s.stack) :
    Replaces F 0 0 0 x := by
  intro s
  obtain ⟨v, t, hx, ht⟩ := h s
  rw [hx]
  exact ⟨Nat.zero_le _, [], rfl, ht⟩

theorem pure {v : α} : Replaces (W := W) F 0 0 0 (pure v) := still fun s => ⟨v, s, rfl, rfl⟩

theorem throw {f : Fault} (hf : F f) : Replaces F d a b (throw f : Exec W α) :=
  fun _ => ⟨.inr hf, 0, Nat.zero_le _, Nat.zero_le _, rfl⟩

theorem push {v : Value} : Replaces (W := W) F 0 0 1 (push v) :=
  fun _ => ⟨Nat.zero_le _, [v], rfl, rfl⟩

theorem pop : Replaces (W := W) F 1 1 0 pop := by
  rintro ⟨ip, _ | ⟨v, σ⟩, m, i, k⟩
  · exact ⟨.inl ⟨rfl, Nat.one_pos⟩, 0, Nat.zero_le _, Nat.zero_le _, rfl⟩
  · exact ⟨Nat.le_add_left 1 _, [], rfl, rfl⟩

/-- A copy needs a value, and leaves it where it is. -/
theorem dup : Replaces (W := W) F 1 0 1 (plain .dup) := by
  rintro ⟨ip, _ | ⟨v, σ⟩, m, i, k⟩
  · exact ⟨.inl ⟨rfl, Nat.one_pos⟩, 0, Nat.zero_le _, Nat.zero_le _, rfl⟩
  · exact ⟨Nat.le_add_left 1 _, [v], rfl, rfl⟩

/-- The first action only takes values away. -/
theorem bind {x : Exec W α} {f : α → Exec W β} (hx : Replaces F a a 0 x)
    (hf : ∀ v, Replaces F d b c (f v)) : Replaces F (a + d) (a + b) c (x >>= f) := by
  intro s
  have hxs := hx s
  simp only [Bind.bind, EStateM.bind]
  cases hr : x s with
  | error e t =>
    rw [hr] at hxs
    obtain ⟨he, k, hka, hk, ht⟩ := hxs
    refine ⟨he.imp_left fun ⟨he, hlow⟩ => ⟨he, by omega⟩, k, Nat.le_add_right_of_le hka, hk, ht⟩
  | ok v t =>
    rw [hr] at hxs
    obtain ⟨ha, out, hout, ht⟩ := hxs
    obtain rfl := List.length_eq_zero_iff.1 hout
    rw [List.nil_append] at ht
    -- what the second action takes stood below what the first one took
    have hlen : t.stack.length = s.stack.length - a := by rw [ht, List.length_drop]
    have hfs := hf v t
    dsimp only
    cases hr' : f v t with
    | error e u =>
      rw [hr'] at hfs
      obtain ⟨he, k, hkb, hk, hu⟩ := hfs
      refine ⟨he.imp_left fun ⟨he, hlow⟩ => ⟨he, by omega⟩, a + k, Nat.add_le_add_left hkb a,
        by omega, ?_⟩
      rw [hu, ht, List.drop_drop]
    | ok w u =>
      rw [hr'] at hfs
      obtain ⟨hd, out, hout, hu⟩ := hfs
      refine ⟨by omega, out, hout, ?_⟩
      rw [hu, ht, List.drop_drop]

section

variable {op : Opcode} {expected : Operand} {view : Value → Option α}
  (hm : ∀ found, F (.operandMismatch op expected found))

include hm

theorem popAs : Replaces (W := W) F 1 1 0 (popAs op expected view) := by
  refine pop.bind (d := 0) (b := 0) fun v => ?_
  cases view v
  · exact throw (hm v.tag)
  · exact pure

theorem binary {f : α → α → Except Fault Value} (hf : ∀ l r e, f l r = .error e → F e) :
    Replaces (W := W) F 2 2 1 (binary (Exec.popAs op expected view) f) := by
  refine (popAs hm).bind (d := 1) (b := 1) fun r => (popAs hm).bind (d := 0) (b := 0) fun l => ?_
  cases hv : f l r with
  | error e => exact throw (hf l r e hv)
  | ok v => exact push

/-- An operation that never fails on its operands. -/
theorem total {f : α → α → Value} :
    Replaces (W := W) F 2 2 1 (Exec.binary (Exec.popAs op expected view) fun l r => .ok (f l r)) :=
  binary hm (by simp)

theorem unary {f : α → Value} :
    Replaces (W := W) F 1 1 1 (Exec.popAs op expected view >>= fun v => Exec.push (f v)) :=
  (popAs hm).bind (d := 0) (b := 0) fun _ => push

end

theorem onNumbers {op : Typed} {onInts : Int64 → Int64 → Except Fault Value}
    {onFloats : Float → Float → Value} {tag : Tag}
    (hm : ∀ expected found, F (.operandMismatch (.typed op) expected found))
    (hr : tag ≠ .int → tag ≠ .float → F (.malformed (.rejectedTag op tag)))
    (hf : ∀ l r e, onInts l r = .error e → F e) :
    Replaces (W := W) F 2 2 1 (onNumbers op onInts onFloats tag) := by
  cases tag with
  | int => exact binary (hm _) hf
  | float => exact total (hm _)
  | bool | string => exact throw (hr (by simp) (by simp))

theorem print [Writer W] {n : Nat} (ho : ∀ cause, F (.outputFailed cause)) :
    Replaces (W := W) F n n 0 (print n) := by
  intro s
  by_cases hn : s.stack.length < n
  · rw [print_of_lt hn]
    exact ⟨.inl ⟨rfl, hn⟩, 0, Nat.zero_le _, Nat.zero_le _, rfl⟩
  · have hle := Nat.le_of_not_lt hn
    rw [print_of_le hle]
    generalize Writer.write s.sink (lineOf n s.stack ++ "\n") = w
    rcases w with ⟨cause | _, k⟩
    · exact ⟨.inr (ho cause), n, Nat.le_refl n, hle, rfl⟩
    · exact ⟨hle, [], rfl, rfl⟩

theorem read {tag : Tag} (he : F .inputExhausted) (hb : ∀ text, F (.badInput text tag)) :
    Replaces (W := W) F 0 0 1 (read tag) := by
  intro s
  rw [read_eq]
  cases s.input.next.1 with
  | none => exact ⟨.inr he, 0, Nat.zero_le _, Nat.zero_le _, rfl⟩
  | some text =>
    dsimp only
    cases Value.read tag text with
    | ok v => exact ⟨Nat.zero_le _, [v], rfl, rfl⟩
    | error e => exact ⟨.inr (hb text), 0, Nat.zero_le _, Nat.zero_le _, rfl⟩

theorem jump {p : Linked} {l : String} (hl : p.target? l = none → F (.unresolvedLabel l)) :
    Replaces (W := W) F 0 0 0 (jump p l) := by
  unfold Exec.jump
  cases h : p.target? l with
  | none => exact throw (hl h)
  | some j => exact still fun s => ⟨(), { s with ip := j }, rfl, rfl⟩

end Replaces

end Exec

/-! ## Instructions -/

namespace Instr

variable {W : Type} {p : Linked}

open Exec

/-- An operation with a type tag puts one value in the place of its operands. -/
theorem replaces_typed {op : Typed} {tag : Tag} :
    Replaces (W := W) ((typed op tag).Risks p) op.taken op.taken 1 (Exec.typed op tag) := by
  have hm (expected : Operand) (found : Tag) :
      (typed op tag).Risks p (.operandMismatch (.typed op) expected found) := .operandMismatch
  cases op with
  | add | sub | mul | lt | gt =>
    exact .onNumbers hm (fun hi hf => .rejectedTag (by simp [Typed.Accepts, hi, hf])) (by simp)
  | div =>
    exact .onNumbers hm (fun hi hf => .rejectedTag (by simp [Typed.Accepts, hi, hf]))
      fun l r e h => eq_of_guard h ▸ .quotient
  | eq => cases tag <;> exact .total (hm _)
  | uminus =>
    cases tag with
    | int | float => exact .unary (hm _)
    | bool | string => exact .throw (.rejectedTag (by simp [Typed.Accepts]))
  | read => exact .read .inputExhausted fun _ => .badInput

theorem replaces_plain {op : Plain} : Replaces (W := W) ((plain op).Risks p) (plain op).taken
    (plain op).removes (plain op).adds (Exec.plain op) := by
  have hm (expected : Operand) (found : Tag) :
      (plain op).Risks p (.operandMismatch (.plain op) expected found) := .operandMismatch
  cases op with
  | mod => exact .binary (hm _) fun l r e h => eq_of_guard h ▸ .remainder
  | concat | and | or => exact .total (hm _)
  | not | itof => exact .unary (hm _)
  | dup => exact .dup
  | pop => exact Replaces.pop.bind (d := 0) (b := 0) fun _ => .pure

theorem replaces_named {op : Named} {x : String} : Replaces (W := W) ((named op x).Risks p)
    op.taken op.taken op.left (Exec.named p op x) := by
  cases op with
  | load =>
    have hget : Replaces ((named .load x).Risks p) 0 0 0 (get : Exec W (State W)) :=
      .still fun s => ⟨s, s, rfl, rfl⟩
    refine hget.bind (d := 0) (b := 0) fun s => ?_
    cases s.store.get? x
    · exact .throw .uninitialized
    · exact .push
  | save =>
    refine Replaces.pop.bind (d := 0) (b := 0) fun v => ?_
    exact .still fun s => ⟨(), { s with store := s.store.set x v }, rfl, rfl⟩
  | jmp => exact .jump (.unresolvedLabel rfl)
  | fjmp =>
    refine (Replaces.popAs fun _ => .operandMismatch).bind (d := 0) (b := 0) fun b => ?_
    cases b
    · exact .jump (.unresolvedLabel rfl)
    · exact .pure
  | label => exact .pure

/-- **An instruction replaces its operands by its results, or fails with one of its
    faults.**  It lacks operands only if the stack is too low. -/
theorem replaces_execute [Writer W] (i : Instr) :
    Replaces (W := W) (i.Risks p) i.taken i.removes i.adds (i.execute p) := by
  cases i with
  | push tag text =>
    simp only [execute, constant]
    cases Value.ofLiteral tag text
    · exact .throw .badConstant
    · exact .push
  | print n => exact .print fun _ => .outputFailed
  | plain op => exact replaces_plain
  | typed op tag => exact replaces_typed
  | named op x => exact replaces_named

end Instr

/-- A fault of a step is that of a stack that is too low, or one of those that its
    instruction risks. -/
theorem Linked.risks_of_step {W : Type} [Writer W] {m : Linked} {s t : State W} {i : Instr}
    {r : Report} (hi : m.get? s.ip = some i) (h : m.step s = .failed t r) :
    r.fault = .stackUnderflow ∧ s.stack.length < i.taken ∨ i.Risks m r.fault := by
  have hfault := i.replaces_execute (p := m) { s with ip := s.ip + 1 }
  simp only [step, hi, EStateM.run] at h
  cases hx : i.execute m { s with ip := s.ip + 1 } with
  | ok _ t' => simp [hx] at h
  | error f t' =>
    rw [hx] at hfault h
    cases h
    exact hfault.1

end StackLang
