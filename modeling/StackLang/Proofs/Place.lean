/-
  Code inside a larger program.

  * `State.place n b s` is the state `s` of a machine whose code stands from the index
    `n` on in a larger program, and whose stack lies on the values `b`;
  * an instruction does the same at such a place, unless it lacked operands on its own
    (`Linked.Contains.execute`);
  * so code that links by itself runs in every program that it is a part of as it runs
    alone: `Linked.Contains.steps` and `Linked.Contains.step_failed`.
-/
import StackLang.Proofs.Frame
import StackLang.Proofs.Link

namespace StackLang

variable {W : Type}

/-- The state with its code moved behind `n` instructions, and its stack on top of the
    values `b`. -/
def State.place (n : Nat) (b : List Value) (s : State W) : State W :=
  { s with ip := n + s.ip, stack := s.stack ++ b }

/-! ## Instructions at another place -/

namespace Exec

variable {n : Nat} {b : List Value} {α β : Type}

/-- The second result is the first one at its place.  An action that lacked operands
    may find some there. -/
def PlacedResult (n : Nat) (b : List Value) (r r' : EStateM.Result Fault (State W) α) : Prop :=
  match r with
  | .ok a t => r' = .ok a (t.place n b)
  | .error f t => f ≠ .stackUnderflow → r' = .error f (t.place n b)

/-- The second action does at a place what the first one does. -/
def Placed (n : Nat) (b : List Value) (x y : Exec W α) : Prop :=
  ∀ s, PlacedResult n b (x s) (y (s.place n b))

namespace Placed

theorem bind {x y : Exec W α} {f g : α → Exec W β} (hxy : Placed n b x y)
    (hfg : ∀ a, Placed n b (f a) (g a)) : Placed n b (x >>= f) (y >>= g) := by
  intro s
  have hs := hxy s
  simp only [Bind.bind, EStateM.bind]
  cases hx : x s with
  | ok a t =>
    rw [hx] at hs
    rw [show y (s.place n b) = .ok a (t.place n b) from hs]
    exact hfg a t
  | error e t =>
    rw [hx] at hs
    intro he
    rw [hs he]

theorem push {v : Value} : Placed (W := W) n b (push v) (push v) := fun _ => rfl

theorem pop : Placed (W := W) n b pop pop := by
  rintro ⟨ip, _ | ⟨v, σ⟩, m, i, k⟩
  · exact fun h => absurd rfl h
  · rfl

theorem dup : Placed (W := W) n b (plain .dup) (plain .dup) := by
  rintro ⟨ip, _ | ⟨v, σ⟩, m, i, k⟩
  · exact fun h => absurd rfl h
  · rfl

/-- The operations on the stack do not look at what is below their operands. -/
theorem admits : Admits (W := W) fun _ x => Placed n b x x where
  pure := fun _ => rfl
  throw := fun _ _ => rfl
  bind := bind
  push := push
  pop := pop
  dup := dup

theorem read {tag : Tag} : Placed (W := W) n b (read tag) (read tag) := by
  intro s
  simp only [read_eq, State.place]
  cases s.input.next.1 with
  | none => exact fun _ => rfl
  | some text =>
    dsimp only
    cases Value.read tag text with
    | error e => exact fun _ => rfl
    | ok v => rfl

theorem print [Writer W] {k : Nat} : Placed (W := W) n b (print k) (print k) := by
  intro s
  by_cases hlen : s.stack.length < k
  · rw [print_of_lt hlen]
    exact fun h => absurd rfl h
  · have hle : k ≤ s.stack.length := Nat.le_of_not_lt hlen
    have hle' : k ≤ (s.place n b).stack.length := by
      simp only [State.place, List.length_append]
      omega
    have hline : lineOf k (s.place n b).stack = lineOf k s.stack := by
      simp only [lineOf, State.place, List.take_append_of_le_length hle]
    have hdrop : (s.place n b).stack.drop k = s.stack.drop k ++ b :=
      List.drop_append_of_le_length hle
    rw [print_of_le hle, print_of_le hle', hline, hdrop]
    simp only [State.place]
    generalize Writer.write s.sink (lineOf k s.stack ++ "\n") = w
    rcases w with ⟨_ | _, sink⟩
    · exact fun _ => rfl
    · rfl

theorem jump {p q : Linked} {l : String} {j : Nat} (hq : q.target? l = some j)
    (hp : p.target? l = some (n + j)) : Placed (W := W) n b (jump q l) (jump p l) := by
  unfold Exec.jump
  rw [hq, hp]
  exact fun _ => rfl

theorem load {p q : Linked} {x : String} :
    Placed (W := W) n b (named q .load x) (named p .load x) := by
  intro s
  simp only [Exec.named, Bind.bind, EStateM.bind, get, getThe, MonadStateOf.get, get_apply,
    State.place]
  cases s.store.get? x with
  | none => exact fun _ => rfl
  | some v => rfl

end Placed

end Exec

/-! ## Programs inside others -/

namespace Linked

/-- The program `q` stands in `p` from the index `n` on, and its jumps go to the same
    instructions there. -/
structure Contains (p : Linked) (n : Nat) (q : Linked) : Prop where
  get? : ∀ {k i}, q.get? k = some i → p.get? (n + k) = some i
  target? : ∀ {k i l}, q.get? k = some i → i.target? = some l →
    ∃ j, q.target? l = some j ∧ p.target? l = some (n + j)

namespace Contains

variable [Writer W] {p q : Linked} {n : Nat} {b : List Value} {s t : State W}

open Exec in
/-- An instruction does the same at its place in the larger program. -/
theorem execute (h : p.Contains n q) {k : Nat} {i : Instr} (hi : q.get? k = some i) :
    Placed (W := W) n b (i.execute q) (i.execute p) := by
  have hjump {op : Named} {l : String} (hop : i = .named op l)
      (hl : (Instr.named op l).target? = some l) : Placed (W := W) n b (jump q l) (jump p l) := by
    obtain ⟨j, hq, hp⟩ := h.target? hi (hop ▸ hl)
    exact .jump hq hp
  cases i with
  | push tag text => exact Placed.admits.constant
  | print k => exact .print
  | plain op => exact Placed.admits.plain
  | typed op tag => exact Placed.admits.typed fun _ => .read
  | named op x =>
    cases op with
    | load => exact .load (p := p) (q := q)
    | save => exact Placed.pop.bind fun _ _ => rfl
    | jmp => exact hjump rfl rfl
    | fjmp =>
      refine Placed.admits.popAs.bind fun c => ?_
      cases c
      · exact hjump rfl rfl
      · exact Placed.admits.pure
    | label => exact Placed.admits.pure

/-- **A step of the part is a step of the whole.** -/
theorem step_next (h : p.Contains n q) (hs : q.step s = .next t) :
    p.step (s.place n b) = .next (t.place n b) := by
  cases hi : q.get? s.ip with
  | none =>
    rw [step_eq_halted hi] at hs
    cases hs
  | some i =>
    have hx := h.execute hi (b := b) { s with ip := s.ip + 1 }
    simp only [step, hi, EStateM.run] at hs
    cases hr : i.execute q { s with ip := s.ip + 1 } with
    | error f u => simp [hr] at hs
    | ok v u =>
      obtain rfl : u = t := by simpa [hr] using hs
      rw [hr] at hx
      exact step_eq_next (h.get? hi) hx

/-- A step of the part that fails, but not for want of an operand, fails in the whole at
    the same instruction. -/
theorem step_failed (h : p.Contains n q) {r : Report} (hs : q.step s = .failed t r)
    (hr : r.fault ≠ .stackUnderflow) : ∃ i, q.get? s.ip = some i ∧
      p.step (s.place n b) = .failed (t.place n b) (.located (n + s.ip) i.text r.fault) := by
  cases hi : q.get? s.ip with
  | none =>
    rw [step_eq_halted hi] at hs
    cases hs
  | some i =>
    refine ⟨i, rfl, ?_⟩
    have hx := h.execute hi (b := b) { s with ip := s.ip + 1 }
    simp only [step, hi, EStateM.run] at hs
    cases hres : i.execute q { s with ip := s.ip + 1 } with
    | ok v u => simp [hres] at hs
    | error f u =>
      obtain ⟨rfl, rfl⟩ : u = t ∧ Report.located s.ip i.text f = r := by simpa [hres] using hs
      rw [hres] at hx
      exact step_eq_failed (h.get? hi) (hx hr)

/-- **The part runs in the whole as it runs alone.** -/
theorem steps (h : p.Contains n q) {k : Nat} (hs : q.Steps k s t) :
    p.Steps k (s.place n b) (t.place n b) := by
  induction hs with
  | refl => exact .refl
  | step hs _ ih => exact .step (h.step_next hs) ih

end Contains

end Linked

/-- Code that links by itself is contained in every program that it is a part of. -/
theorem Code.contains_of_link {before code after : List Instr} {p q : Linked}
    (hq : link code = .ok q) (hp : link (before ++ code ++ after) = .ok p) :
    p.Contains before.length q := by
  have hget {k : Nat} {i : Instr} (hi : q.get? k = some i) :
      p.get? (before.length + k) = some i := by
    rw [get?_of_link hq] at hi
    obtain ⟨hk, -⟩ := List.getElem?_eq_some_iff.1 hi
    rw [get?_of_link hp, List.append_assoc, List.getElem?_append_right (Nat.le_add_right _ _),
      Nat.add_sub_cancel_left, List.getElem?_append_left hk, hi]
  refine ⟨hget, fun {k i l} hi hl => ?_⟩
  -- the label is defined in the code itself, and there is only one of its name
  have hmem : i ∈ code := List.mem_of_getElem? (by rw [← get?_of_link hq]; exact hi)
  have hdef : l ∈ defs code :=
    (link_isOk_iff.1 ⟨q, hq⟩).2 l (List.mem_filterMap.2 ⟨i, hmem, hl⟩)
  obtain ⟨i', hi', hlabel⟩ := List.mem_filterMap.1 hdef
  obtain ⟨j, hj⟩ := List.getElem?_of_mem hi'
  have hqj : q.get? j = some (.named .label l) := by
    rw [get?_of_link hq, hj, label?_eq_some.1 hlabel]
  exact ⟨j, exact_of_link hq hqj, exact_of_link hp (hget hqj)⟩

end StackLang
